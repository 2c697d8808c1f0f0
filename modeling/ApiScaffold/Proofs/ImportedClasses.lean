import ApiScaffold.Proofs.AcceptedSettings
import ApiScaffold.Proofs.ImportClaims
import ApiScaffold.Proofs.StubAnswers
import ApiScaffold.Proofs.TemplateTokens
import Mathlib.Order.BooleanAlgebra.Set

/-!
# What generated files import

For a controller and for a data object, the classes that its file needs are given by a list of
reasons, each of which names the class and what it is needed for. The main theorems say that the
`use` lines of the file are one for each of these classes, in the order of the names, and no
others. The claims of the filters' class can be given back, so the pairs of names and owners are
followed until all claims are made. A stub without a place for the imports shows none.
-/
namespace ApiScaffold

open Text

/-! ### Names as they are kept -/

theorem Imports.normalName_eq_self {name : Text} (h : name.head? ≠ some '\\') :
    normalName name = name := by
  cases name with
  | nil => rfl
  | cons c rest =>
    unfold normalName stripLeft
    exact List.dropWhile_cons_of_neg (by simpa using h)

theorem Imports.normalName_stripLeft (name : Text) :
    normalName (stripLeft (· == '\\') name) = stripLeft (· == '\\') name := by
  refine normalName_eq_self fun h => ?_
  have hno := List.head?_dropWhile_not (· == '\\') name
  unfold stripLeft at h
  rw [h] at hno
  simp at hno

theorem head?_of_isNamespace {t : Text} (h : isNamespace t = true) :
    t.head?.any isIdentifierStart = true := by
  cases t with
  | nil => cases h
  | cons c rest =>
    have hpieces := List.all_eq_true.mp h
    by_cases hc : c = '\\'
    · have hempty : ([] : Text) ∈ splitOn '\\' (c :: rest) := by simp [splitOn, hc]
      exact absurd (hpieces _ hempty) (by decide)
    · obtain ⟨piece, hpiece⟩ : ∃ piece, c :: piece ∈ splitOn '\\' (c :: rest) := by
        unfold splitOn
        rw [if_neg hc]
        split
        · exact ⟨[], List.mem_cons_self⟩
        · exact ⟨_, List.mem_cons_self⟩
      exact (isIdentifier_iff.mp (hpieces _ hpiece)).1

namespace Settings

/-- The root namespace begins as an identifier does. -/
theorem Accepted.head?_root {s : Settings} (hs : s.Accepted) :
    ∃ c rest, s.rootNamespace = c :: rest ∧ c ≠ '\\' := by
  have hhead : s.rootNamespace.head?.any isIdentifierStart = true := by
    rcases Bool.or_eq_true_iff.mp hs.root with h | h
    · exact head?_of_isNamespace h
    · have hfront := head?_of_isNamespace (Bool.and_eq_true_iff.mp h).2
      unfold dropEnd at hfront
      rw [List.head?_take] at hfront
      split_ifs at hfront
      · cases hfront
      · exact hfront
  cases hroot : s.rootNamespace with
  | nil =>
    rw [hroot] at hhead
    cases hhead
  | cons c rest =>
    rw [hroot] at hhead
    refine ⟨c, rest, rfl, ?_⟩
    rintro rfl
    cases hhead

theorem Accepted.normalName_qualify {s : Settings} (hs : s.Accepted) (parts : List Text) :
    Imports.normalName (s.qualify parts) = s.qualify parts := by
  obtain ⟨c, rest, hroot, hc⟩ := hs.head?_root
  have hhead : (s.qualify parts).head? = some c := by
    unfold qualify
    rw [hroot]
    cases (parts.filter (· ≠ [])).map (stripChar '\\') <;> rfl
  refine Imports.normalName_eq_self ?_
  rw [hhead]
  exact fun h => hc (Option.some.inj h)

end Settings

theorem ClassNames.normalName_enumClass {s : Settings} (hs : s.Accepted) {c : Column}
    {entity cls : Text} (h : enumClass s c entity = .ok cls) : Imports.normalName cls = cls := by
  have hqualified (name : Text) :
      Imports.normalName (qualifiedEnum s name) = qualifiedEnum s name := by
    unfold qualifiedEnum
    split_ifs
    · exact Imports.normalName_stripLeft name
    · exact hs.normalName_qualify _
  unfold enumClass at h
  split at h
  · obtain ⟨name, -, rfl⟩ := Except.map_eq_ok_iff.mp h
    exact hqualified name
  · cases h
    unfold undeclaredEnum
    split
    · exact hqualified _
    · unfold guessedEnum
      dsimp only
      split_ifs
      · exact hs.normalName_qualify _
      · exact hs.normalName_qualify _

/-! ### Claims of a file -/

namespace Imports

/-- Claims without an owner belong to the owner `*`. -/
theorem mem_pairs_addAll {r : Imports} {names : List Text} {name owner : Text} :
    (name, owner) ∈ (r.addAll names).pairs ↔
      (name, owner) ∈ r.pairs ∨ owner = "*" ∧ ∃ n ∈ names, normalName n = name := by
  unfold addAll
  induction names generalizing r with
  | nil => simp
  | cons first rest ih =>
    have hfirst : (name, owner) ∈ (r.add first).pairs ↔
        (normalName first = name ∧ owner = "*") ∨ (name, owner) ∈ r.pairs := by
      rw [pairs_add, Set.mem_insert_iff, Prod.mk.injEq, eq_comm (a := name)]
      rfl
    rw [List.foldl_cons, ih, hfirst]
    simp only [List.exists_mem_cons_iff]
    tauto

theorem WellKept.addAll {r : Imports} (h : r.WellKept) (names : List Text) :
    (r.addAll names).WellKept := by
  unfold Imports.addAll
  induction names generalizing r with
  | nil => exact h
  | cons name rest ih => exact ih (h.add name none)

theorem pairs_empty : ({} : Imports).pairs = ∅ := by
  ext p
  simp [pairs]

/-- The `use` lines for names, one below the other. -/
def useLines (names : List Text) : Text := join "\n" (names.map fun name => "use " ++ name ++ ";")

/-- The lines of the text import exactly the classes that are needed: each once, in the order of
their names. -/
def Imported (needs : Text → Prop) (lines : Text) : Prop :=
  ∃ names : List Text, names.Pairwise (· < ·) ∧ (∀ name, name ∈ names ↔ needs name) ∧
    lines = useLines names

/-- The needed classes decide the lines. -/
theorem Imported.eq_useLines {needs : Text → Prop} {lines : Text} (h : Imported needs lines)
    {names : List Text} (hsorted : names.Pairwise (· < ·))
    (hneeds : ∀ name, name ∈ names ↔ needs name) : lines = useLines names := by
  obtain ⟨others, hothers, hmem, rfl⟩ := h
  have hperm : others.Perm names := by
    apply (List.perm_ext_iff_of_nodup (hothers.imp ne_of_lt) (hsorted.imp ne_of_lt)).mpr
    intro name
    rw [hmem, hneeds]
  rw [hperm.eq_of_pairwise (fun _ _ _ _ hab hba => absurd hab (lt_asymm hba)) hothers hsorted]

/-- A well kept registry writes its names. -/
theorem WellKept.imported {r : Imports} (h : r.WellKept) {needs : Text → Prop}
    (hneeds : ∀ name, name ∈ r.names ↔ needs name) : Imported needs r.render :=
  ⟨r.names, h.names_pairwise, hneeds, rfl⟩

end Imports

namespace AllowList

theorem claimFilters_wellKept (e : Option Entity) {r : Imports} (h : r.WellKept) :
    (claimFilters e r).WellKept := by
  unfold claimFilters
  dsimp only
  split_ifs
  · exact h.add _ _
  · exact (h.add _ _).release _ _

/-- The claim of the filters is put in, and taken out again when no filter uses the class. -/
theorem pairs_claimFilters (e : Option Entity) (r : Imports) :
    (claimFilters e r).pairs =
      if (filters e).any Filter.usesClass then insert (filterClass, filterOwner) r.pairs
      else r.pairs \ {(filterClass, filterOwner)} := by
  have hname : Imports.normalName filterClass = filterClass := by decide
  have howner : Imports.ownerOf (some filterOwner) = filterOwner := by decide
  unfold claimFilters
  dsimp only
  split_ifs
  · rw [Imports.pairs_add, hname, howner]
  · rw [Imports.pairs_release, Imports.pairs_add, hname, howner,
      Set.insert_sdiff_of_mem _ (Set.mem_singleton _)]

/-- The claim of the filters stays exactly when a filter uses the class. -/
theorem mem_pairs_claimFilters {e : Option Entity} {r : Imports}
    (hother : ∀ name, (name, filterOwner) ∉ r.pairs) {name owner : Text} :
    (name, owner) ∈ (claimFilters e r).pairs ↔
      (name, owner) ∈ r.pairs ∨
        (name = filterClass ∧ owner = filterOwner) ∧ ∃ f ∈ filters e, f.usesClass = true := by
  rw [pairs_claimFilters]
  split_ifs with huses
  · have huses := List.any_eq_true.mp huses
    rw [Set.mem_insert_iff, Prod.mk.injEq]
    tauto
  · have huses : ¬∃ f ∈ filters e, f.usesClass = true := fun h => huses (List.any_eq_true.mpr h)
    rw [Set.mem_sdiff, Set.mem_singleton_iff]
    constructor
    · exact fun hkept => Or.inl hkept.1
    · rintro (hkept | ⟨-, hexists⟩)
      · refine ⟨hkept, fun heq => ?_⟩
        cases heq
        exact hother _ hkept
      · exact absurd hexists huses

/-- The filters that use the class are those of keys and enums and the one for deleted records. -/
theorem exists_usesClass_iff {e : Option Entity} :
    (∃ f ∈ filters e, f.usesClass = true) ↔
      ∃ ent, e = some ent ∧
        ((∃ col ∈ ent.columns, isExact col = true) ∨ ent.softDeletes = true) := by
  cases e with
  | none => simp [filters]
  | some ent =>
    simp only [filters, List.mem_append, List.mem_map, List.mem_filter, Option.some.injEq,
      exists_eq_left']
    constructor
    · rintro ⟨f, (⟨col, hcol, -⟩ | hf) | ⟨col, -, rfl⟩, huses⟩
      · exact Or.inl ⟨col, hcol⟩
      · split_ifs at hf with hsoft
        · exact Or.inr hsoft
        · cases hf
      · cases huses
    · rintro (⟨col, hcol⟩ | hsoft)
      · exact ⟨.exact col.name, Or.inl (Or.inl ⟨col, hcol, rfl⟩), rfl⟩
      · exact ⟨.trashed, Or.inl (Or.inr (by simp [hsoft])), rfl⟩

end AllowList

/-! ### Controllers -/

namespace ControllerFile

/-- The classes that the file of a controller needs, when it has methods for the given actions. -/
inductive Needs (s : Settings) (c : Controller) (e : Option Entity) (verbs : List Text) :
    Text → Prop
  | response : Needs s c e verbs jsonResponse
  | base : Needs s c e verbs (ClassNames.baseController s)
  | model (he : e.isSome = true) : Needs s c e verbs (ClassNames.qualifiedModel s c.modelName)
  | resource (he : e.isSome = true) :
    Needs s c e verbs (ClassNames.qualifiedResource s c.space c.modelName)
  | exactFilter {ent : Entity} {col : Column} (he : e = some ent) (hcol : col ∈ ent.columns)
    (hexact : AllowList.isExact col = true) : Needs s c e verbs AllowList.filterClass
  | trashedFilter {ent : Entity} (he : e = some ent) (hsoft : ent.softDeletes = true) :
    Needs s c e verbs AllowList.filterClass
  | data {verb : Text} (hverb : verb ∈ verbs)
    (hbody : verb = ("store" : Text) ∨ verb = ("update" : Text)) :
    Needs s c e verbs (ClassNames.qualifiedData s c.modelName)
  | path {verb : Text} (he : e.isSome = true) (hverb : verb ∈ verbs)
    (hpath : verb = ("update" : Text) ∨ verb = ("destroy" : Text)) :
    Needs s c e verbs pathParameterClass
  | body {ent : Entity} {verb : Text} {col : Column} (he : e = some ent) (hverb : verb ∈ verbs)
    (hbody : verb = ("store" : Text) ∨ verb = ("update" : Text)) (hcol : col ∈ ent.columns)
    (hdoc : documents s col = true) : Needs s c e verbs bodyParameterClass

variable {s : Settings} {c : Controller} {e : Option Entity} {verbs : List Text} {cls : Text}

theorem hasBody_iff {verb : Text} :
    hasBody verb = true ↔ verb = ("store" : Text) ∨ verb = ("update" : Text) := by
  simp [hasBody]

theorem pathPurpose?_isSome_iff {verb : Text} :
    (pathPurpose? verb).isSome = true ↔ verb = ("update" : Text) ∨ verb = ("destroy" : Text) := by
  unfold pathPurpose?
  split_ifs with hupdate hdestroy
  · simp [hupdate]
  · simp [hdestroy]
  · constructor
    · exact fun hno => by cases hno
    · rintro (h | h)
      · exact absurd h hupdate
      · exact absurd h hdestroy

theorem documented_ne_nil_iff {ent : Entity} :
    documented s ent ≠ [] ↔ ∃ col ∈ ent.columns, documents s col = true := by
  simp [documented]

theorem mem_methodClasses {verb : Text} :
    cls ∈ methodClasses s c.modelName e verb ↔
      (e.isSome = true ∧ (verb = ("update" : Text) ∨ verb = ("destroy" : Text)) ∧
          cls = pathParameterClass) ∨
        (∃ ent, e = some ent ∧ (verb = ("store" : Text) ∨ verb = ("update" : Text)) ∧
          (∃ col ∈ ent.columns, documents s col = true) ∧ cls = bodyParameterClass) ∨
        (verb = ("store" : Text) ∨ verb = ("update" : Text)) ∧
          cls = ClassNames.qualifiedData s c.modelName := by
  unfold methodClasses
  rw [← hasBody_iff, ← pathPurpose?_isSome_iff, List.mem_append]
  cases e with
  | none => by_cases hbody : hasBody verb = true <;> simp [hbody]
  | some ent =>
    simp only [← documented_ne_nil_iff]
    by_cases hpath : (pathPurpose? verb).isSome = true <;>
      by_cases hbody : hasBody verb = true <;>
        by_cases hdoc : documented s ent = [] <;> simp [hpath, hbody, hdoc, or_assoc]

/-- The classes that are claimed for the entity. -/
def entityClasses (s : Settings) (c : Controller) (e : Option Entity) : List Text :=
  if e.isSome then
    [ClassNames.qualifiedModel s c.modelName, ClassNames.qualifiedResource s c.space c.modelName]
  else []

/-- The classes that are claimed before any method is written. -/
def firstClasses (s : Settings) (c : Controller) (e : Option Entity) : List Text :=
  jsonResponse :: ClassNames.baseController s :: entityClasses s c e

/-- The classes that are claimed for the owner `*`. -/
def claimedClasses (s : Settings) (c : Controller) (e : Option Entity) (verbs : List Text) :
    List Text :=
  firstClasses s c e ++ verbs.flatMap (methodClasses s c.modelName e)

theorem imports_eq (s : Settings) (c : Controller) (e : Option Entity) (verbs : List Text) :
    imports s c e verbs =
      (AllowList.claimFilters e (({} : Imports).addAll (firstClasses s c e))).addAll
        (verbs.flatMap (methodClasses s c.modelName e)) := by
  cases e <;> rfl

theorem wellKept_imports (s : Settings) (c : Controller) (e : Option Entity) (verbs : List Text) :
    (imports s c e verbs).WellKept := by
  rw [imports_eq]
  exact (AllowList.claimFilters_wellKept e (Imports.wellKept_empty.addAll _)).addAll _

/-- Before the filters are claimed, `*` is the only owner. -/
theorem filterOwner_notMem_first (name : Text) :
    (name, AllowList.filterOwner) ∉ (({} : Imports).addAll (firstClasses s c e)).pairs := by
  intro hname
  rcases Imports.mem_pairs_addAll.mp hname with hno | ⟨howner, -⟩
  · rw [Imports.pairs_empty] at hno
    exact hno
  · exact absurd howner (by decide)

/-- The names that are kept are those claimed for `*` and, as long as a filter uses it, the class
of filters. -/
theorem mem_names_imports {name : Text} :
    name ∈ (imports s c e verbs).names ↔
      (∃ cls ∈ claimedClasses s c e verbs, Imports.normalName cls = name) ∨
        name = AllowList.filterClass ∧ ∃ f ∈ AllowList.filters e, f.usesClass = true := by
  rw [(wellKept_imports s c e verbs).mem_names_iff, imports_eq]
  simp only [Imports.mem_pairs_addAll, AllowList.mem_pairs_claimFilters filterOwner_notMem_first,
    Imports.pairs_empty, Set.mem_empty_iff_false, false_or]
  have hsplit : ∀ n, n ∈ claimedClasses s c e verbs ↔
      n ∈ firstClasses s c e ∨ n ∈ verbs.flatMap (methodClasses s c.modelName e) :=
    fun n => List.mem_append
  constructor
  · rintro ⟨owner, (⟨-, n, hn, hname⟩ | ⟨⟨hname, -⟩, huses⟩) | ⟨-, n, hn, hname⟩⟩
    · exact Or.inl ⟨n, (hsplit n).mpr (Or.inl hn), hname⟩
    · exact Or.inr ⟨hname, huses⟩
    · exact Or.inl ⟨n, (hsplit n).mpr (Or.inr hn), hname⟩
  · rintro (⟨n, hn, hname⟩ | ⟨hname, huses⟩)
    · rcases (hsplit n).mp hn with hn | hn
      · exact ⟨"*", Or.inl (Or.inl ⟨rfl, n, hn, hname⟩)⟩
      · exact ⟨"*", Or.inr ⟨rfl, n, hn, hname⟩⟩
    · exact ⟨AllowList.filterOwner, Or.inl (Or.inr ⟨⟨hname, rfl⟩, huses⟩)⟩

theorem mem_entityClasses :
    cls ∈ entityClasses s c e ↔ e.isSome = true ∧
      (cls = ClassNames.qualifiedModel s c.modelName ∨
        cls = ClassNames.qualifiedResource s c.space c.modelName) := by
  unfold entityClasses
  split_ifs with he <;> simp [he]

/-- Every claim has a reason, and every reason a claim. -/
theorem needs_iff :
    Needs s c e verbs cls ↔
      cls ∈ claimedClasses s c e verbs ∨
        cls = AllowList.filterClass ∧ ∃ f ∈ AllowList.filters e, f.usesClass = true := by
  unfold claimedClasses firstClasses
  rw [List.mem_append, List.mem_cons, List.mem_cons, mem_entityClasses, List.mem_flatMap,
    AllowList.exists_usesClass_iff]
  simp only [mem_methodClasses]
  constructor
  · intro h
    cases h with
    | response => exact Or.inl (Or.inl (Or.inl rfl))
    | base => exact Or.inl (Or.inl (Or.inr (Or.inl rfl)))
    | model he => exact Or.inl (Or.inl (Or.inr (Or.inr ⟨he, Or.inl rfl⟩)))
    | resource he => exact Or.inl (Or.inl (Or.inr (Or.inr ⟨he, Or.inr rfl⟩)))
    | exactFilter he hcol hexact => exact Or.inr ⟨rfl, _, he, Or.inl ⟨_, hcol, hexact⟩⟩
    | trashedFilter he hsoft => exact Or.inr ⟨rfl, _, he, Or.inr hsoft⟩
    | data hverb hbody => exact Or.inl (Or.inr ⟨_, hverb, Or.inr (Or.inr ⟨hbody, rfl⟩)⟩)
    | path he hverb hpath => exact Or.inl (Or.inr ⟨_, hverb, Or.inl ⟨he, hpath, rfl⟩⟩)
    | body he hverb hbody hcol hdoc =>
      exact Or.inl (Or.inr ⟨_, hverb, Or.inr (Or.inl ⟨_, he, hbody, ⟨_, hcol, hdoc⟩, rfl⟩)⟩)
  · rintro (((rfl | rfl | ⟨he, rfl | rfl⟩) | ⟨verb, hverb, ⟨he, hpath, rfl⟩ |
      ⟨ent, he, hbody, ⟨col, hcol, hdoc⟩, rfl⟩ | ⟨hbody, rfl⟩⟩) |
      ⟨rfl, ent, he, ⟨col, hcol, hexact⟩ | hsoft⟩)
    · exact .response
    · exact .base
    · exact .model he
    · exact .resource he
    · exact .path he hverb hpath
    · exact .body he hverb hbody hcol hdoc
    · exact .data hverb hbody
    · exact .exactFilter he hcol hexact
    · exact .trashedFilter he hsoft

/-- No class that a controller needs is written with a backslash in front. -/
theorem Needs.normalName_eq_self (hs : s.Accepted) (h : Needs s c e verbs cls) :
    Imports.normalName cls = cls := by
  cases h with
  | response | exactFilter | trashedFilter | path | body => decide
  | base | model | resource | data => exact hs.normalName_qualify _

theorem classSlots_imports (methods : List (Text × Text)) :
    (classSlots s c e methods).value? "imports" =
      some (imports s c e (methods.map (·.1))).render :=
  rfl

/-- The imports of a controller are the classes that it needs. -/
theorem mem_names_iff_needs (hs : s.Accepted) {name : Text} :
    name ∈ (imports s c e verbs).names ↔ Needs s c e verbs name := by
  rw [mem_names_imports]
  constructor
  · rintro (⟨n, hn, rfl⟩ | hfilter)
    · have hneeds : Needs s c e verbs n := needs_iff.mpr (Or.inl hn)
      rw [hneeds.normalName_eq_self hs]
      exact hneeds
    · exact needs_iff.mpr (Or.inr hfilter)
  · intro hneeds
    have hself := hneeds.normalName_eq_self hs
    exact (needs_iff.mp hneeds).imp_left fun hn => ⟨name, hn, hself⟩

variable {site : Site} {tree : Tree} {stubs : Stub.Repository} {stub : Text}

/-- A controller whose class stub is found is rendered unless a stub of a method cannot be read,
the calendar does not cover the moment or a value of an enum column cannot be written. Its methods
are those of the declared actions that may be written and have a stub, and what the stub has for
its imports, which stands in the file where the stub asks for it, is one line for each class that
the controller needs, in order. -/
theorem controller_imports_exactly (hs : s.Accepted)
    (hstub : stubs.answer tree site.cwd classStub = .ok (some stub)) (c : Controller)
    (e : Option Entity) :
    (∃ f, Job.render site s tree stubs (.controller c e) = .error f ∧
        Job.Hindered (stubs.answer tree site.cwd) site.now ((writtenVerbs s c).map methodStub)
          (Job.controller c e).columns f) ∨
      ∃ methods stubs' lines, Job.render site s tree stubs (.controller c e) =
          .ok (.made (artifact s c e stub methods), stubs') ∧
        methods.map (·.1) = renderedVerbs (stubs.answer tree site.cwd) s c ∧
        Imports.Imported (Needs s c e (renderedVerbs (stubs.answer tree site.cwd) s c)) lines ∧
        (artifact s c e stub methods).content = Stub.render stub (classSlots s c e methods) ∧
        (classSlots s c e methods).value? "imports" = some lines ∧
        (Stub.HasToken "imports" stub → lines <:+: (artifact s c e stub methods).content) := by
  rcases Job.render_controller (s := s) hstub c e with hfails | ⟨methods, stubs', hrender, hverbs⟩
  · exact Or.inl hfails
  · have hslot := classSlots_imports (s := s) (c := c) (e := e) methods
    have hlines : Imports.Imported (Needs s c e (methods.map (·.1)))
        (imports s c e (methods.map (·.1))).render :=
      (wellKept_imports s c e _).imported fun name => mem_names_iff_needs hs
    rw [hverbs] at hlines hslot
    exact Or.inr ⟨methods, stubs', _, hrender, hverbs, hlines, artifact_content s c e stub methods,
      hslot, fun htoken => Stub.infix_render htoken hslot⟩

/-- A record with a filter for its status and one for deleted records, and a controller with
actions of each kind, one of which has no method. -/
def trashablePost : Entity :=
  { name := "Post", softDeletes := true,
    columns := [{ name := "title" }, { name := "status", dataType := "Enum" }] }

def postActions : Controller := { name := "Posts", methods := ["index", "store", "destroy"] }

/-- The classes that the controller of such a record imports. -/
def postClasses : List Text :=
  [("App\\Data\\PostData" : Text), "App\\Http\\Controllers\\Api\\BaseApiController",
    "App\\Http\\Resources\\Api\\PostResource", "App\\Models\\Post",
    "Dedoc\\Scramble\\Attributes\\BodyParameter",
    "Dedoc\\Scramble\\Attributes\\PathParameter", "Illuminate\\Http\\JsonResponse",
    "Spatie\\QueryBuilder\\AllowedFilter"]

theorem trashablePost_controller_imports :
    ∃ methods stubs', Job.render plainSite {} plainTree packagedStubs
        (.controller postActions (some trashablePost)) =
          .ok (.made (artifact {} postActions (some trashablePost) Stub.controllerClass methods),
            stubs') ∧
      Imports.Imported (Needs {} postActions (some trashablePost) [("store" : Text), "destroy"])
        (Imports.useLines postClasses) ∧
      Imports.useLines postClasses <:+:
        (artifact {} postActions (some trashablePost) Stub.controllerClass methods).content := by
  have hverbs : renderedVerbs (packagedStubs.answer plainTree plainSite.cwd) {} postActions =
      [("store" : Text), "destroy"] := by
    decide +kernel
  have hrenders : (Job.render plainSite {} plainTree packagedStubs
      (.controller postActions (some trashablePost))).isOk = true := by
    decide +kernel
  have hstub : packagedStubs.answer plainTree plainSite.cwd classStub =
      .ok (some Stub.controllerClass) := rfl
  have htoken : Stub.HasToken "imports" Stub.controllerClass :=
    ⟨Stub.slot "imports", by decide +kernel⟩
  rcases controller_imports_exactly Settings.accepted_default hstub postActions
      (some trashablePost) with
    ⟨f, hfails, -⟩ | ⟨methods, stubs', lines, hrender, -, himports, -, -, hinfix⟩
  · rw [hfails] at hrenders
    cases hrenders
  · rw [hverbs] at himports
    have hclaimed : ∀ cls ∈ claimedClasses {} postActions (some trashablePost)
        [("store" : Text), "destroy"], cls ∈ postClasses := by
      decide +kernel
    have hlisted : ∀ cls ∈ postClasses, cls ∈ claimedClasses {} postActions (some trashablePost)
        [("store" : Text), "destroy"] ∨ cls = AllowList.filterClass := by
      decide +kernel
    have huses : ∃ f ∈ AllowList.filters (some trashablePost), f.usesClass = true := by decide
    have hneeds : ∀ name, name ∈ postClasses ↔
        Needs {} postActions (some trashablePost) [("store" : Text), "destroy"] name := by
      intro name
      rw [needs_iff]
      constructor
      · exact fun hname => (hlisted name hname).imp_right fun heq => ⟨heq, huses⟩
      · rintro (hname | ⟨rfl, -⟩)
        · exact hclaimed name hname
        · decide
    obtain rfl := himports.eq_useLines (by decide) hneeds
    exact ⟨methods, stubs', hrender, himports, hinfix htoken⟩

end ControllerFile

/-! ### Data objects -/

namespace DataFile

/-- The related names that get a property: a name that is not blank, that no column has and that
none of the related names before has. -/
def Emits (s : Settings) (e : Entity) (r : RelationshipKind × Text) : Prop :=
  ∃ before after, e.related = before ++ r :: after ∧ (relatedProperty s r).name ≠ [] ∧
    (relatedProperty s r).name ∉ e.columnNames ∧
    ∀ q ∈ before, (relatedProperty s q).name ≠ (relatedProperty s r).name

/-- The classes that the file of a data object needs. -/
inductive Needs (s : Settings) (e : Entity) : Text → Prop
  | base : Needs s e baseClass
  | castOfEnum {c : Column} (hc : c ∈ e.columns) (hbody : c.isBodyColumn = true)
    (henum : c.isEnum = true) : Needs s e withCast
  | castOfDate {c : Column} (hc : c ∈ e.columns) (hbody : c.isBodyColumn = true)
    (hdate : c.isDate = true) : Needs s e withCast
  | enumCast {c : Column} (hc : c ∈ e.columns) (hbody : c.isBodyColumn = true)
    (henum : c.isEnum = true) : Needs s e enumCast
  | enumClass {c : Column} {cls : Text} (hc : c ∈ e.columns) (hbody : c.isBodyColumn = true)
    (henum : c.isEnum = true) (hcls : ClassNames.enumClass s c e.name = .ok cls) : Needs s e cls
  | dateClass {c : Column} (hc : c ∈ e.columns) (hbody : c.isBodyColumn = true)
    (hdate : c.isDate = true) : Needs s e dateClass
  | dateCast {c : Column} (hc : c ∈ e.columns) (hbody : c.isBodyColumn = true)
    (hdate : c.isDate = true) : Needs s e dateCast
  | related {r : RelationshipKind × Text} (hr : Emits s e r) :
    Needs s e (ClassNames.qualifiedData s r.2)

variable {s : Settings} {e : Entity} {cls : Text}

/-- A property is kept if its name is neither blank nor taken and no property before has it. -/
theorem mem_fresh_iff {taken : List Text} {ps : List Property} {p : Property} :
    p ∈ fresh taken ps ↔ ∃ before after, ps = before ++ p :: after ∧ p.name ≠ [] ∧
      p.name ∉ taken ∧ ∀ q ∈ before, q.name ≠ p.name := by
  induction ps generalizing taken with
  | nil => simp [fresh]
  | cons q rest ih =>
    unfold fresh
    split_ifs with hq
    · rw [ih]
      constructor
      · rintro ⟨before, after, rfl, hblank, htaken, hbefore⟩
        have hne : q.name ≠ p.name := by
          rintro heq
          rw [heq, List.contains_iff_mem] at hq
          exact hq.elim hblank htaken
        exact ⟨q :: before, after, rfl, hblank, htaken, List.forall_mem_cons.mpr ⟨hne, hbefore⟩⟩
      · rintro ⟨before, after, heq, hblank, htaken, hbefore⟩
        cases before with
        | nil =>
          cases heq
          rw [List.contains_iff_mem] at hq
          exact (hq.elim hblank htaken).elim
        | cons first before =>
          cases heq
          exact ⟨before, after, rfl, hblank, htaken, (List.forall_mem_cons.mp hbefore).2⟩
    · rw [List.contains_iff_mem, not_or] at hq
      rw [List.mem_cons, ih]
      constructor
      · rintro (rfl | ⟨before, after, rfl, hblank, htaken, hbefore⟩)
        · exact ⟨[], rest, rfl, hq.1, hq.2, by simp⟩
        · rw [List.mem_cons, not_or] at htaken
          exact ⟨q :: before, after, rfl, hblank, htaken.2,
            List.forall_mem_cons.mpr ⟨Ne.symm htaken.1, hbefore⟩⟩
      · rintro ⟨before, after, heq, hblank, htaken, hbefore⟩
        cases before with
        | nil =>
          cases heq
          exact Or.inl rfl
        | cons first before =>
          cases heq
          obtain ⟨hfirst, hbefore⟩ := List.forall_mem_cons.mp hbefore
          have htaken' : p.name ∉ q.name :: taken := by
            rw [List.mem_cons, not_or]
            exact ⟨Ne.symm hfirst, htaken⟩
          exact Or.inr ⟨before, after, rfl, hblank, htaken', hbefore⟩

theorem mem_relatedProperties_iff {p : Property} :
    p ∈ relatedProperties s e ↔ ∃ r, Emits s e r ∧ p = relatedProperty s r := by
  unfold relatedProperties Emits
  rw [mem_fresh_iff]
  constructor
  · rintro ⟨before, after, heq, hblank, htaken, hbefore⟩
    obtain ⟨rs, tail, hrelated, rfl, htail⟩ := List.map_eq_append_iff.mp heq
    obtain ⟨r, after', rfl, rfl, rfl⟩ := List.map_eq_cons_iff.mp htail
    have hearlier : ∀ q ∈ rs, (relatedProperty s q).name ≠ (relatedProperty s r).name :=
      fun q hq => hbefore _ (List.mem_map_of_mem hq)
    exact ⟨r, ⟨rs, after', hrelated, hblank, htaken, hearlier⟩, rfl⟩
  · rintro ⟨r, ⟨before, after, heq, hblank, htaken, hbefore⟩, rfl⟩
    rw [heq, List.map_append, List.map_cons]
    exact ⟨_, _, rfl, hblank, htaken, List.forall_mem_map.mpr hbefore⟩

/-- A column is not both an enum and a date. -/
theorem not_isEnum_of_isDate {c : Column} (h : c.isDate = true) : ¬c.isEnum = true := by
  unfold Column.isDate isDateType at h
  unfold Column.isEnum isEnumType
  rw [eq_of_beq h]
  decide

/-- The classes of the property of a column. -/
theorem mem_columnProperty_classes {c : Column} {p : Property}
    (hp : columnProperty s e c = .ok p) :
    cls ∈ p.classes ↔
      (c.isEnum = true ∧ (cls = withCast ∨ cls = DataFile.enumCast ∨
        ClassNames.enumClass s c e.name = .ok cls)) ∨
      c.isDate = true ∧ (cls = DataFile.dateClass ∨ cls = withCast ∨ cls = DataFile.dateCast) := by
  obtain ⟨own, hown, rfl⟩ := Except.map_eq_ok_iff.mp hp
  rcases ClassNames.enumClass?_eq_ok_iff.mp hown with ⟨henum, enum, hcls, rfl⟩ | ⟨henum, rfl⟩
  · have hdate : ¬c.isDate = true := fun h => not_isEnum_of_isDate h henum
    simp [propertyOf, henum, hdate, hcls, eq_comm (b := enum)]
  · unfold propertyOf
    dsimp only
    by_cases hdate : c.isDate = true <;> simp [henum, hdate]

variable {ps : List Property}

theorem mem_columnProperties_iff {p : Property} (h : columnProperties s e = .ok ps) :
    p ∈ ps ↔ ∃ c ∈ e.columns, c.isBodyColumn = true ∧ columnProperty s e c = .ok p := by
  rw [Except.mem_of_mapM_eq_ok h]
  simp only [List.mem_filter, and_assoc]

/-- A column of a request body has a property. -/
theorem exists_mem_columnProperties (h : columnProperties s e = .ok ps) {c : Column}
    (hc : c ∈ e.columns) (hbody : c.isBodyColumn = true) :
    ∃ p ∈ ps, columnProperty s e c = .ok p := by
  obtain ⟨p, hp⟩ := Except.exists_mapM_eq_ok_iff.mp ⟨ps, h⟩ c (List.mem_filter.mpr ⟨hc, hbody⟩)
  exact ⟨p, (mem_columnProperties_iff h).mpr ⟨c, hc, hbody, hp⟩, hp⟩

/-- Every class of a property has a reason, and every reason but the base class a property. -/
theorem needs_iff (h : properties s e = .ok ps) :
    Needs s e cls ↔ cls ∈ baseClass :: ps.flatMap (·.classes) := by
  obtain ⟨columns, hcolumns, rfl⟩ := properties_eq_ok_iff.mp h
  rw [List.mem_cons, List.mem_flatMap]
  constructor
  · intro hneeds
    have hof : ∀ c ∈ e.columns, c.isBodyColumn = true →
        ((c.isEnum = true ∧ (cls = withCast ∨ cls = DataFile.enumCast ∨
          ClassNames.enumClass s c e.name = .ok cls)) ∨
        c.isDate = true ∧ (cls = DataFile.dateClass ∨ cls = withCast ∨ cls = DataFile.dateCast)) →
        cls = baseClass ∨ ∃ p ∈ columns ++ relatedProperties s e, cls ∈ p.classes := by
      intro c hc hbody hcls
      obtain ⟨p, hp, heq⟩ := exists_mem_columnProperties hcolumns hc hbody
      exact Or.inr ⟨p, List.mem_append_left _ hp, (mem_columnProperty_classes heq).mpr hcls⟩
    cases hneeds with
    | base => exact Or.inl rfl
    | castOfEnum hc hbody henum => exact hof _ hc hbody (Or.inl ⟨henum, Or.inl rfl⟩)
    | castOfDate hc hbody hdate => exact hof _ hc hbody (Or.inr ⟨hdate, Or.inr (Or.inl rfl)⟩)
    | enumCast hc hbody henum => exact hof _ hc hbody (Or.inl ⟨henum, Or.inr (Or.inl rfl)⟩)
    | enumClass hc hbody henum hcls =>
      exact hof _ hc hbody (Or.inl ⟨henum, Or.inr (Or.inr hcls)⟩)
    | dateClass hc hbody hdate => exact hof _ hc hbody (Or.inr ⟨hdate, Or.inl rfl⟩)
    | dateCast hc hbody hdate => exact hof _ hc hbody (Or.inr ⟨hdate, Or.inr (Or.inr rfl)⟩)
    | related hr =>
      exact Or.inr ⟨_, List.mem_append_right _ (mem_relatedProperties_iff.mpr ⟨_, hr, rfl⟩),
        List.mem_singleton_self _⟩
  · rintro (rfl | ⟨p, hp, hcls⟩)
    · exact .base
    rcases List.mem_append.mp hp with hp | hp
    · obtain ⟨c, hc, hbody, heq⟩ := (mem_columnProperties_iff hcolumns).mp hp
      rcases (mem_columnProperty_classes heq).mp hcls with
        ⟨henum, rfl | rfl | hown⟩ | ⟨hdate, rfl | rfl | rfl⟩
      · exact .castOfEnum hc hbody henum
      · exact .enumCast hc hbody henum
      · exact .enumClass hc hbody henum hown
      · exact .dateClass hc hbody hdate
      · exact .castOfDate hc hbody hdate
      · exact .dateCast hc hbody hdate
    · obtain ⟨r, hr, rfl⟩ := mem_relatedProperties_iff.mp hp
      rw [List.mem_singleton.mp hcls]
      exact .related hr

theorem Needs.normalName_eq_self (hs : s.Accepted) (h : Needs s e cls) :
    Imports.normalName cls = cls := by
  cases h with
  | base | castOfEnum | castOfDate | enumCast | dateClass | dateCast => decide
  | enumClass _ _ _ hcls => exact ClassNames.normalName_enumClass hs hcls
  | related => exact hs.normalName_qualify _

theorem wellKept_imports (ps : List Property) : (imports ps).WellKept :=
  Imports.wellKept_empty.addAll _

/-- The imports of a data object are the classes that it needs. -/
theorem mem_names_iff_needs (hs : s.Accepted) (h : properties s e = .ok ps) {name : Text} :
    name ∈ (imports ps).names ↔ Needs s e name := by
  have hnames : name ∈ (imports ps).names ↔ ∃ n, Needs s e n ∧ Imports.normalName n = name := by
    rw [(wellKept_imports ps).mem_names_iff]
    unfold imports
    simp only [Imports.mem_pairs_addAll, Imports.pairs_empty, Set.mem_empty_iff_false, false_or,
      exists_eq_left, needs_iff h]
  rw [hnames]
  constructor
  · rintro ⟨n, hn, rfl⟩
    rw [hn.normalName_eq_self hs]
    exact hn
  · exact fun hn => ⟨name, hn, hn.normalName_eq_self hs⟩

/-- The values that the class stub is filled in with. -/
def classSlots (s : Settings) (e : Entity) (ps : List Property) : Stub.Slots :=
  [("namespace", s.qualify ["Data"]), ("class", ClassNames.dataClass e.name),
   ("imports", (imports ps).render),
   ("properties", propertyBlock (ps.map (·.text)))]

theorem fileOf_content (s : Settings) (e : Entity) (stub : Text) (ps : List Property) :
    (fileOf s e stub ps).content = Stub.render stub (classSlots s e ps) :=
  rfl

theorem classSlots_imports (s : Settings) (e : Entity) (ps : List Property) :
    (classSlots s e ps).value? "imports" = some (imports ps).render :=
  rfl

variable {site : Site} {tree : Tree} {stubs : Stub.Repository} {stub : Text}

/-- A data object whose class stub is found is rendered unless a class declared for an enum cannot
be written. What the stub has for its imports, which stands in the file where the stub asks for it,
is one line for each class that the data object needs, in order. -/
theorem data_imports_exactly (hs : s.Accepted)
    (hstub : stubs.answer tree site.cwd classStub = .ok (some stub)) (e : Entity) :
    (Job.render site s tree stubs (.data e) = .error (.misuse .tooLongToWrite) ∧
        ∃ c ∈ e.columns, c.isBodyColumn = true ∧ c.HasLongClass) ∨
      (∀ c ∈ e.columns, c.isBodyColumn = true → ¬c.HasLongClass) ∧
        ∃ properties stubs' lines, Job.render site s tree stubs (.data e) =
            .ok (.made (fileOf s e stub properties), stubs') ∧
          Imports.Imported (Needs s e) lines ∧
          (fileOf s e stub properties).content =
            Stub.render stub (classSlots s e properties) ∧
          (classSlots s e properties).value? "imports" = some lines ∧
          (Stub.HasToken "imports" stub → lines <:+: (fileOf s e stub properties).content) := by
  rcases Job.render_data (s := s) hstub e with hfails | ⟨properties, stubs', hproperties, hrender⟩
  · exact Or.inl hfails
  · have hslot := classSlots_imports s e properties
    have hlines : Imports.Imported (Needs s e) (imports properties).render :=
      (wellKept_imports properties).imported fun name => mem_names_iff_needs hs hproperties
    exact Or.inr ⟨exists_properties_iff.mp ⟨properties, hproperties⟩, properties, stubs', _,
      hrender, hlines, fileOf_content s e stub properties, hslot,
      fun htoken => Stub.infix_render htoken hslot⟩

/-- A record with an enum, a date, columns that no request sets and related names, one of which
leads to the name of a column and one to a name that is taken. -/
def eventfulPost : Entity :=
  { name := "Post",
    columns := [{ name := "status", dataType := "enum" }, { name := "day", dataType := "DATE" },
      { name := "deleted_at", dataType := "datetime" }, { name := "user_id" }],
    relationships := [(.belongsTo, ["Status", "User"]), (.hasOne, ["user"])] }

/-- The classes that the data object of such a record imports. -/
def eventfulClasses : List Text :=
  [("App\\Data\\UserData" : Text), "App\\Enums\\Status", "Carbon\\CarbonImmutable",
    "Spatie\\LaravelData\\Attributes\\WithCast",
    "Spatie\\LaravelData\\Casts\\DateTimeInterfaceCast",
    "Spatie\\LaravelData\\Casts\\EnumCast", "Spatie\\LaravelData\\Data"]

theorem eventfulPost_imports :
    ∃ properties stubs', Job.render plainSite {} plainTree packagedStubs (.data eventfulPost) =
        .ok (.made (fileOf {} eventfulPost Stub.dataClass properties), stubs') ∧
      Imports.Imported (Needs {} eventfulPost) (Imports.useLines eventfulClasses) ∧
      Imports.useLines eventfulClasses <:+:
        (fileOf {} eventfulPost Stub.dataClass properties).content := by
  have hstub : packagedStubs.answer plainTree plainSite.cwd classStub =
      .ok (some Stub.dataClass) := rfl
  have htoken : Stub.HasToken "imports" Stub.dataClass :=
    ⟨Stub.slot "imports", by decide +kernel⟩
  obtain ⟨ps, hps, hlisted, hclaimed⟩ : ∃ ps, properties {} eventfulPost = .ok ps ∧
      (∀ cls ∈ eventfulClasses, cls ∈ baseClass :: ps.flatMap (·.classes)) ∧
        ∀ cls ∈ baseClass :: ps.flatMap (·.classes), cls ∈ eventfulClasses :=
    ⟨_, rfl, by decide +kernel, by decide +kernel⟩
  rcases data_imports_exactly Settings.accepted_default hstub eventfulPost with
    ⟨hfails, c, hc, hbody, hlong⟩ |
      ⟨-, properties, stubs', lines, hrender, himports, -, -, hinfix⟩
  · exact absurd hlong (exists_properties_iff.mp ⟨ps, hps⟩ c hc hbody)
  · have hneeds : ∀ name, name ∈ eventfulClasses ↔ Needs {} eventfulPost name := by
      intro name
      rw [needs_iff hps]
      exact ⟨hlisted name, hclaimed name⟩
    obtain rfl := himports.eq_useLines (by decide) hneeds
    exact ⟨properties, stubs', hrender, himports, hinfix htoken⟩

end DataFile

end ApiScaffold
