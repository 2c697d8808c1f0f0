import ApiScaffold.Proofs.EntityReferences
import ApiScaffold.Proofs.RepeatedControllers

/-!
# The methods that a controller declares

The entries of a definition declare actions one after the other, a resource several at once, and
an action counts where it is met first: within one entry, across entries, and whether it is named
by a resource or by its own key. So the methods of a controller are all different, and they are
the same whether they are picked out of the whole row of actions or taken in one by one. The file
of the controller has at most one method from each stub, in the order of the actions, whatever
stubs are found.
-/
namespace ApiScaffold

open Text

/-! ### First occurrences -/

/-- The first occurrences of the texts of a list, in order. -/
structure FirstOccurrences (all firsts : List Text) : Prop where
  nodup : firsts.Nodup
  mem_iff : ∀ t, t ∈ firsts ↔ t ∈ all
  ordered : firsts.Pairwise fun a b => all.idxOf a < all.idxOf b

theorem firstOccurrences_distinct (all : List Text) : FirstOccurrences all (distinct all) where
  nodup := nodup_distinct all
  mem_iff _ := mem_distinct
  ordered := by
    induction all with
    | nil => exact List.Pairwise.nil
    | cons t rest ih =>
      have hother : ∀ u ∈ (distinct rest).filter (· ≠ t),
          (t :: rest).idxOf u = rest.idxOf u + 1 := by
        intro u hu
        have hne : u ≠ t := by simpa using (List.mem_filter.mp hu).2
        exact List.idxOf_cons_ne rest hne.symm
      rw [distinct, List.pairwise_cons]
      constructor
      · intro u hu
        rw [List.idxOf_cons_self, hother u hu]
        exact Nat.succ_pos _
      · refine (ih.filter _).imp_of_mem fun {a b} ha hb hlt => ?_
        rw [hother a ha, hother b hb]
        exact Nat.succ_lt_succ hlt

theorem distinct_concat (texts : List Text) (t : Text) :
    distinct (texts ++ [t]) = if t ∈ texts then distinct texts else distinct texts ++ [t] := by
  induction texts with
  | nil => rfl
  | cons first rest ih =>
    rw [List.cons_append, distinct, distinct, ih]
    by_cases hfirst : t = first
    · subst hfirst
      split_ifs <;> simp_all
    · by_cases hrest : t ∈ rest <;> simp [hrest, hfirst]

namespace Draft

/-! ### Entries -/

/-- Takes in the actions of one entry, each unless it is there already. -/
def takeIn (methods actions : List Text) : List Text :=
  actions.foldl (fun found action => if action ∈ found then found else found ++ [action]) methods

theorem takeIn_distinct (before actions : List Text) :
    takeIn (distinct before) actions = distinct (before ++ actions) := by
  unfold takeIn
  induction actions generalizing before with
  | nil => rw [List.foldl_nil, List.append_nil]
  | cons action rest ih =>
    have hstep : (if action ∈ distinct before then distinct before
        else distinct before ++ [action]) = distinct (before ++ [action]) := by
      simp only [distinct_concat, mem_distinct]
    rw [List.foldl_cons, hstep, ih, List.append_assoc, List.singleton_append]

theorem foldl_takeIn (before : List Text) (parts : List (List Text)) :
    parts.foldl takeIn (distinct before) = distinct (before ++ parts.flatten) := by
  induction parts generalizing before with
  | nil => rw [List.foldl_nil, List.flatten_nil, List.append_nil]
  | cons part rest ih =>
    rw [List.foldl_cons, takeIn_distinct, ih, List.flatten_cons, List.append_assoc]

/-- The actions that an entry stands for: those of the resource under the key `resource`, and the
key itself under any other. -/
inductive Expands (defaults : List Text) : Value × Value → List Text → Prop
  | resource {key value : Value} {written : Text} (hkey : key.written = .ok "resource")
      (hvalue : value.written = .ok written) :
      Expands defaults (key, value) (resourceMethods written defaults)
  | action {key value : Value} {name : Text} (hkey : key.written = .ok name)
      (hname : name ≠ "resource") : Expands defaults (key, value) [name]

theorem expands_iff {defaults : List Text} {p : Value × Value} {actions : List Text} :
    Expands defaults p actions ↔ entryMethods defaults p.1 p.2 = .ok actions := by
  constructor
  · rintro (⟨hkey, hvalue⟩ | ⟨hkey, hname⟩)
    · exact bind_eq_ok_iff.mpr ⟨_, hkey,
        (if_pos rfl).trans (Except.map_eq_ok_iff.mpr ⟨_, hvalue, rfl⟩)⟩
    · exact bind_eq_ok_iff.mpr ⟨_, hkey, if_neg hname⟩
  · intro h
    obtain ⟨name, hname, h⟩ := bind_eq_ok_iff.mp h
    split_ifs at h with hresource
    · subst hresource
      obtain ⟨written, hwritten, rfl⟩ := Except.map_eq_ok_iff.mp h
      exact .resource hname hwritten
    · cases h
      exact .action hname hresource

theorem declaredMethods_parts {defaults : List Text} {pairs : Mapping} {all : List Text}
    (h : declaredMethods defaults pairs = .ok all) :
    ∃ parts, List.Forall₂ (Expands defaults) pairs parts ∧ all = parts.flatten := by
  induction pairs generalizing all with
  | nil =>
    cases h
    exact ⟨[], .nil, rfl⟩
  | cons p rest ih =>
    obtain ⟨first, hfirst, h⟩ := bind_eq_ok_iff.mp h
    obtain ⟨more, hmore, rfl⟩ := Except.map_eq_ok_iff.mp h
    obtain ⟨parts, hparts, rfl⟩ := ih hmore
    exact ⟨first :: parts, .cons (expands_iff.mpr hfirst) hparts, rfl⟩

end Draft

namespace ControllerFile

theorem methodStub_injective : Function.Injective methodStub := by
  intro a b h
  exact List.append_cancel_left (List.append_cancel_right h)

end ControllerFile

namespace Job

variable {site : Site} {s : Settings} {tree : Tree} {c : Controller} {e : Option Entity}
  {stubs : Stub.Repository}

/-- A method of a file, from its stub as the repository answers it. -/
def HasMethod (look : Lookup) (c : Controller) (m : Text × Text) : Prop :=
  ∃ stub lines, look (ControllerFile.methodStub m.1) = .ok (some stub) ∧
    m.2 = Stub.render stub (ControllerFile.methodSlots c m.1 lines)

/-- The file of a controller has a method for each of its actions that is to be written and has a
stub, in the order of the actions and from that stub. -/
theorem methods_of_made {a : Artifact} {stubs' : Stub.Repository}
    (h : render site s tree stubs (controller c e) = .ok (.made a, stubs')) :
    ∃ stub methods, a = ControllerFile.artifact s c e stub methods ∧
      methods.map (·.1) = ControllerFile.renderedVerbs (stubs.answer tree site.cwd) s c ∧
      ∀ m ∈ methods, HasMethod (stubs.answer tree site.cwd) c m := by
  have houtcome := render_answer site s tree (controller c e) stubs
  rw [h] at houtcome
  obtain ⟨stub, methods, -, hmethods, ha⟩ := outcome_controller_made houtcome.symm
  exact ⟨stub, methods, ha, methodTexts_verbs hmethods, ControllerFile.mem_methodTexts hmethods⟩

end Job

namespace Draft

/-- The methods of an accepted controller are the first occurrences of the actions that its
entries stand for, as they are when the actions are taken in one by one. The file of such a
controller has methods for some of them in their order, each from the stub of its own action, and
no two from one stub. -/
theorem methods_firstOccurrences {name definition : Value} {defaults : List Text} {c : Controller}
    (h : controller name definition defaults = .ok c) :
    (∃ entries parts, entries? definition = some entries ∧
      List.Forall₂ (Expands defaults) entries parts ∧
      FirstOccurrences parts.flatten c.methods ∧ c.methods = parts.foldl takeIn []) ∧
    ∀ site s tree e stubs stubs' a,
      Job.render site s tree stubs (.controller c e) = .ok (.made a, stubs') →
        ∃ stub methods, a = ControllerFile.artifact s c e stub methods ∧
          (methods.map (·.1)).Sublist c.methods ∧
          (methods.map fun m => ControllerFile.methodStub m.1).Nodup ∧
          ∀ m ∈ methods, Job.HasMethod (stubs.answer tree site.cwd) c m := by
  obtain ⟨shown, -, -, entries, hentries, hmethods⟩ := controller_parts h
  obtain ⟨all, hall, hdistinct⟩ := Except.map_eq_ok_iff.mp hmethods
  obtain ⟨parts, hparts, rfl⟩ := declaredMethods_parts hall
  have hfirst : FirstOccurrences parts.flatten c.methods :=
    hdistinct ▸ firstOccurrences_distinct parts.flatten
  refine ⟨⟨entries, parts, hentries, hparts, hfirst, ?_⟩, ?_⟩
  · rw [← hdistinct]
    exact (foldl_takeIn [] parts).symm
  · intro site s tree e stubs stubs' a hmade
    obtain ⟨stub, methods, ha, hverbs, hown⟩ := Job.methods_of_made hmade
    have hsublist : (methods.map (·.1)).Sublist c.methods := by
      rw [hverbs]
      exact List.filter_sublist.trans List.filter_sublist
    refine ⟨stub, methods, ha, hsublist, ?_, hown⟩
    have hnodup := (hfirst.nodup.sublist hsublist).map ControllerFile.methodStub_injective
    rwa [List.map_map] at hnodup

/-- A controller that names some of its actions twice, by a resource and by keys of their own. -/
def eagerPost : Controller :=
  { name := "Post", methods := ["show", "store", "update", "1"] }

/-- Stubs that a repository remembers for the class and for two methods. -/
def rememberedStubs : Stub.Repository :=
  { directories := []
    found := [(ControllerFile.classStub, some "class"),
      (ControllerFile.methodStub "update", some "update"),
      (ControllerFile.methodStub "store", some "store")] }

theorem eagerPost_methods :
    controller (.text "Api/Post") (.mapping [(.text "show", .null),
        (.text "resource", .text "store, show,,store, update"), (.text "update", .null),
        (.int 1, .null)]) [] = .ok eagerPost ∧
      (∃ parts : List (List Text), parts.flatten =
          ["show", "store", "show", "store", "update", "update", "1"] ∧
        FirstOccurrences parts.flatten eagerPost.methods) ∧
      ∃ a stubs', Job.render plainSite {} plainTree rememberedStubs (.controller eagerPost none) =
          .ok (.made a, stubs') ∧
        ∃ stub methods, a = ControllerFile.artifact {} eagerPost none stub methods ∧
          (methods.map (·.1)).Sublist eagerPost.methods ∧
          (methods.map fun m => ControllerFile.methodStub m.1).Nodup := by
  have h : controller (.text "Api/Post") (.mapping [(.text "show", .null),
      (.text "resource", .text "store, show,,store, update"), (.text "update", .null),
      (.int 1, .null)]) [] = .ok eagerPost := rfl
  obtain ⟨⟨entries, parts, hentries, hparts, hfirst, -⟩, hrender⟩ := methods_firstOccurrences h
  obtain ⟨a, stubs', hmade⟩ : ∃ a stubs',
      Job.render plainSite {} plainTree rememberedStubs (.controller eagerPost none) =
        .ok (.made a, stubs') := ⟨_, _, rfl⟩
  obtain ⟨stub, methods, ha, hsublist, hnodup, -⟩ := hrender _ _ _ _ _ _ _ hmade
  refine ⟨h, ⟨parts, ?_, hfirst⟩, a, stubs', hmade, stub, methods, ha, hsublist, hnodup⟩
  cases hentries
  simp only [expands_iff, List.forall₂_cons_left_iff, List.forall₂_nil_left_iff] at hparts
  obtain ⟨shown, _, hshown, ⟨resource, _, hresource, ⟨update, _, hupdate, ⟨one, _, hone, rfl, rfl⟩,
    rfl⟩, rfl⟩, rfl⟩ := hparts
  cases hshown
  cases hresource
  cases hupdate
  cases hone
  rfl

end Draft

end ApiScaffold
