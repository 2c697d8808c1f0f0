import ApiScaffold.Proofs.AcceptedSettings
import ApiScaffold.Proofs.MergedMappings
import Mathlib.Data.List.DropRight
import Mathlib.Data.List.Nodup

/-!
# Settings that are read back

Reading a value for a setting may rewrite it, as outer backslashes of a namespace are dropped, but
only once: what a setting has taken is taken again as it is. The other fact needed of a reading is
that it concerns one setting alone. Both are carried over to whole configurations here, which are
built by reading all settings together and by assigning single ones later.
-/
namespace ApiScaffold

open Text

theorem Text.stripLeft_strip (p : Char → Bool) (t : Text) :
    stripLeft p (strip p t) = strip p t := by
  apply List.dropWhile_eq_self_iff.mpr
  intro hlength
  have hfront : strip p t <+: stripLeft p t := List.rdropWhile_prefix p _
  rw [hfront.getElem hlength]
  exact List.dropWhile_eq_self_iff.mp (List.dropWhile_idempotent (p := p) t) _

theorem Text.strip_strip (p : Char → Bool) (t : Text) : strip p (strip p t) = strip p t :=
  calc strip p (strip p t)
      = stripRight p (strip p t) := by rw [strip, stripLeft_strip]
    _ = strip p t := List.rdropWhile_idempotent p _

namespace Check

theorem list_texts (ts : List Text) : list text (.list (ts.map .text)) = .ok ts := by
  have hfrom : ∀ i, Checked.all (listFrom text i (ts.map .text)) = .ok ts := by
    induction ts with
    | nil => intro i; rfl
    | cons t rest ih =>
      intro i
      rw [List.map_cons, listFrom, Checked.all, ih (i + 1)]
      rfl
  exact hfrom 0

theorem putEntry_of_new {α : Type} {found : List (Text × α)} {entry : Text × α}
    (h : entry.1 ∉ found.map Prod.fst) : putEntry found entry = found ++ [entry] := by
  unfold putEntry
  rw [if_neg]
  intro hany
  obtain ⟨e, he, hkey⟩ := List.any_eq_true.mp hany
  exact h (List.mem_map.mpr ⟨e, he, of_decide_eq_true hkey⟩)

theorem keys_putEntry {α : Type} (found : List (Text × α)) (entry : Text × α) :
    (putEntry found entry).map Prod.fst =
      if entry.1 ∈ found.map Prod.fst then found.map Prod.fst
      else found.map Prod.fst ++ [entry.1] := by
  by_cases hkey : entry.1 ∈ found.map Prod.fst
  · obtain ⟨e, he, hkeys⟩ := List.mem_map.mp hkey
    have hany : (found.any fun e => e.1 = entry.1) = true :=
      List.any_eq_true.mpr ⟨e, he, decide_eq_true hkeys⟩
    rw [if_pos hkey, putEntry, if_pos hany, List.map_map]
    apply List.map_congr_left
    intro f _
    by_cases hf : f.1 = entry.1 <;> simp [hf]
  · rw [if_neg hkey, putEntry_of_new hkey, List.map_append, List.map_singleton]

theorem foldl_putEntry_nodup {α : Type} {found : List (Text × α)}
    (h : (found.map Prod.fst).Nodup) (entries : List (Text × α)) :
    ((entries.foldl putEntry found).map Prod.fst).Nodup := by
  induction entries generalizing found with
  | nil => exact h
  | cons entry rest ih =>
    apply ih
    rw [keys_putEntry]
    split_ifs with hkey
    · exact h
    · exact List.nodup_append_comm.mp (List.nodup_cons.mpr ⟨hkey, h⟩)

theorem foldl_putEntry_of_nodup {α : Type} {found entries : List (Text × α)}
    (h : ((found ++ entries).map Prod.fst).Nodup) :
    entries.foldl putEntry found = found ++ entries := by
  induction entries generalizing found with
  | nil => rw [List.append_nil]; rfl
  | cons entry rest ih =>
    have hnew : entry.1 ∉ found.map Prod.fst := by
      intro hmem
      rw [List.map_append, List.map_cons] at h
      exact (List.nodup_append.mp h).2.2 _ hmem _ List.mem_cons_self rfl
    rw [List.foldl_cons, putEntry_of_new hnew, ih (by simpa using h), List.append_assoc,
      List.singleton_append]

theorem entries_nodup {α : Type} {item : Value → Checked α} {v : Value} {es : List (Text × α)}
    (h : entries item v = .ok es) : (es.map Prod.fst).Nodup := by
  unfold entries at h
  split at h
  · obtain ⟨found, -, rfl⟩ := Except.map_eq_ok_iff.mp h
    have hnone : (([] : List (Text × α)).map Prod.fst).Nodup := List.nodup_nil
    exact foldl_putEntry_nodup hnone found
  · cases h

/-- Pairs with different texts for keys are read one by one. -/
theorem entries_of_nodup {α : Type} {item : Value → Checked α} {pairs : Mapping}
    {es : List (Text × α)}
    (hitems : List.Forall₂ (fun p e => p.1 = .text e.1 ∧ item p.2 = .ok e.2) pairs es)
    (hkeys : (es.map Prod.fst).Nodup) : entries item (.mapping pairs) = .ok es := by
  have hall : Checked.all (pairs.map fun p =>
      Checked.both ((text p.1).below .key |>.below (.ofKey p.1))
        ((item p.2).below (.ofKey p.1))) = .ok es := by
    clear hkeys
    induction hitems with
    | nil => rfl
    | @cons p e pairs es hp _ ih =>
      rw [List.map_cons, Checked.all, ih, hp.1, hp.2]
      rfl
  unfold entries
  simp only [hall]
  exact congrArg Except.ok (foldl_putEntry_of_nodup hkeys)

theorem entries_texts {es : List (Text × Text)} (h : (es.map Prod.fst).Nodup) :
    entries text (.mapping (es.map fun p => (.text p.1, .text p.2))) = .ok es :=
  entries_of_nodup (List.forall₂_map_left_iff.mpr (List.forall₂_same.mpr fun _ _ => ⟨rfl, rfl⟩)) h

end Check

namespace Setting

/-- The value that a setting takes when it is read from a value. -/
def validated (f : Setting) (v : Value) : Checked Value :=
  (f.read v).map fun change => (change {}).value f

theorem mem_all (f : Setting) : f ∈ all := by cases f <;> decide

theorem ofText?_text (f : Setting) : ofText? f.text = some f := by cases f <;> rfl

theorem text_inj {f g : Setting} : f.text = g.text ↔ f = g := by
  refine ⟨fun h => ?_, congrArg text⟩
  have hread := congrArg ofText? h
  rw [ofText?_text, ofText?_text] at hread
  exact Option.some.inj hread

/-- What is read for a setting changes that setting alone, whatever the others are. -/
theorem value_read {f : Setting} {v : Value} {change : Settings → Settings}
    (h : f.read v = .ok change) (s : Settings) (g : Setting) :
    (change s).value g = if g = f then (change {}).value f else s.value g := by
  cases f
  all_goals
    obtain ⟨x, -, rfl⟩ := Except.map_eq_ok_iff.mp h
    cases g <;> rfl

theorem validated_read {f : Setting} {v : Value} {change : Settings → Settings}
    (h : f.read v = .ok change) (s : Settings) : f.validated v = .ok ((change s).value f) := by
  rw [value_read h, if_pos rfl, validated, h]
  rfl

/-- A namespace that was read has no outer backslashes left. -/
theorem stripChar_of_namespaceOf {v : Value} {t : Text} (h : namespaceOf v = .ok t) :
    stripChar '\\' t = t := by
  obtain ⟨written, -, h⟩ := Except.bind_eq_ok_iff.mp h
  dsimp only at h
  split_ifs at h
  · cases h
    exact strip_strip _ written
  · cases h

theorem namespaceOf_text {v : Value} {t : Text} (h : namespaceOf v = .ok t) :
    namespaceOf (.text t) = .ok t := by
  have hread : namespaceOf (.text t) =
      if asLine isNamespace (stripChar '\\' t) then .ok (stripChar '\\' t)
      else Checked.refuse (.rule (.namespaceForm (stripChar '\\' t))) := rfl
  rw [hread, stripChar_of_namespaceOf h, if_pos (namespaceOf_ok h)]

theorem methodsOf_texts {ts : List Text} (h : ts.Nodup) :
    methodsOf (.list (ts.map .text)) = .ok ts := by
  unfold methodsOf
  rw [Check.list_texts]
  exact if_pos h

theorem strategyOf_text (strategy : EnumStrategy) :
    strategyOf (.text strategy.text) = .ok strategy := by
  cases strategy <;> rfl

theorem nonEmptyText_text {t : Text} (h : t ≠ []) : Check.nonEmptyText (.text t) = .ok t := by
  cases t with
  | nil => exact absurd rfl h
  | cons c rest => rfl

/-- A value that a setting has taken is taken as it is. -/
theorem validated_validated {f : Setting} {v w : Value} (h : f.validated v = .ok w) :
    f.validated w = .ok w := by
  obtain ⟨change, hread, rfl⟩ := Except.map_eq_ok_iff.mp h
  cases f with
  | rootNamespace =>
    obtain ⟨x, hx, rfl⟩ := Except.map_eq_ok_iff.mp hread
    exact congrArg (Except.map _) (congrArg (Except.map _) (namespaceOf_text hx))
  | appPath =>
    obtain ⟨x, hx, rfl⟩ := Except.map_eq_ok_iff.mp hread
    have hpath : x ≠ [] := Check.ne_nil_of_nonEmptyText hx
    exact congrArg (Except.map _) (congrArg (Except.map _) (nonEmptyText_text hpath))
  | defaultControllerMethods | methodVerbs =>
    obtain ⟨x, hx, rfl⟩ := Except.map_eq_ok_iff.mp hread
    have hmethods : x.Nodup := methodsOf_ok hx
    exact congrArg (Except.map _) (congrArg (Except.map _) (methodsOf_texts hmethods))
  | enumStrategy =>
    obtain ⟨x, hx, rfl⟩ := Except.map_eq_ok_iff.mp hread
    exact congrArg (Except.map _) (congrArg (Except.map _) (strategyOf_text x))
  | enumClasses =>
    obtain ⟨x, hx, rfl⟩ := Except.map_eq_ok_iff.mp hread
    have hkeys : (x.map Prod.fst).Nodup := Check.entries_nodup hx
    exact congrArg (Except.map _) (congrArg (Except.map _) (Check.entries_texts hkeys))
  | stubPaths | enumSuffixes | sortableColumns =>
    obtain ⟨x, -, rfl⟩ := Except.map_eq_ok_iff.mp hread
    exact congrArg (Except.map _) (congrArg (Except.map _) (Check.list_texts x))
  | modelsNamespace | controllerNamespace | generateControllers | generateData
  | controllersForAllModels | documentForeignKeys | atomicWrites =>
    obtain ⟨x, -, rfl⟩ := Except.map_eq_ok_iff.mp hread
    rfl

end Setting

private theorem textsValue_inj {ts us : List Text}
    (h : Value.list (ts.map .text) = .list (us.map .text)) : ts = us :=
  List.map_injective_iff.mpr (fun _ _ => Value.text.inj) (Value.list.inj h)

/-- Settings with the same values are the same. -/
theorem Settings.ext_value {s t : Settings} (h : ∀ f, s.value f = t.value f) : s = t := by
  have hstrategy : s.enumStrategy = t.enumStrategy := by
    have htext := Value.text.inj (h .enumStrategy)
    cases hs : s.enumStrategy <;> cases ht : t.enumStrategy <;> rw [hs, ht] at htext
    all_goals first | rfl | exact absurd htext (by decide)
  have hclasses : s.enumClasses = t.enumClasses := by
    apply List.map_injective_iff.mpr _ (Value.mapping.inj (h .enumClasses))
    intro p q hpq
    obtain ⟨hkey, hclass⟩ := Prod.mk.inj hpq
    exact Prod.ext (Value.text.inj hkey) (Value.text.inj hclass)
  cases s
  cases t
  congr 1
  · exact Value.text.inj (h .rootNamespace)
  · exact Value.text.inj (h .appPath)
  · exact Value.text.inj (h .modelsNamespace)
  · exact Value.text.inj (h .controllerNamespace)
  · exact textsValue_inj (h .stubPaths)
  · exact Value.bool.inj (h .generateControllers)
  · exact Value.bool.inj (h .generateData)
  · exact Value.bool.inj (h .controllersForAllModels)
  · exact textsValue_inj (h .defaultControllerMethods)
  · exact textsValue_inj (h .methodVerbs)
  · exact textsValue_inj (h .enumSuffixes)
  · exact textsValue_inj (h .sortableColumns)
  · exact Value.bool.inj (h .documentForeignKeys)
  · exact Value.bool.inj (h .atomicWrites)

namespace Configuration

variable {data : Mapping} {v : Value} {c c' : Configuration}

/-- What a setting takes from the data of a configuration. -/
def taken (data : Mapping) (f : Setting) : Checked Value :=
  match data.getText? f.text with
  | none => .ok (({} : Settings).value f)
  | some v => f.validated v

theorem readFrom_value {fs : List Setting} {s : Settings} (hfs : fs.Nodup)
    (h : readFrom data fs = .ok s) (f : Setting) :
    if f ∈ fs then taken data f = .ok (s.value f) else s.value f = ({} : Settings).value f := by
  induction fs generalizing s with
  | nil =>
    cases h
    rfl
  | cons g rest ih =>
    obtain ⟨hg, hrest⟩ := List.nodup_cons.mp hfs
    obtain ⟨p, hp, rfl⟩ := Except.map_eq_ok_iff.mp h
    obtain ⟨hchange, hothers⟩ := Checked.both_eq_ok_iff.mp hp
    have ih := ih hrest hothers
    have hvalue : ∀ k, k ≠ g → (p.1 p.2).value k = p.2.value k := by
      intro k hk
      split at hchange
      · rw [← Except.ok.inj hchange]
        rfl
      · rw [Setting.value_read (Checked.below_eq_ok_iff.mp hchange), if_neg hk]
    by_cases hf : f = g
    · subst hf
      rw [if_pos List.mem_cons_self]
      unfold taken
      cases hv : Mapping.getText? f.text data with
      | none =>
        rw [hv] at hchange
        rw [if_neg hg] at ih
        rw [← Except.ok.inj hchange]
        exact congrArg Except.ok ih.symm
      | some w =>
        rw [hv] at hchange
        exact Setting.validated_read (Checked.below_eq_ok_iff.mp hchange) p.2
    · rw [hvalue f hf]
      simp only [List.mem_cons, hf, false_or]
      exact ih

theorem nodup_all : Setting.all.Nodup := by decide

theorem check_mapping_eq_ok_iff : check (.mapping data) = .ok c ↔
    ∃ s, readFrom data Setting.all = .ok s ∧
      Check.strangers (Setting.all.map Setting.text) data = .ok () ∧
      c = { settings := s
            given := Setting.all.filter fun f => (data.getText? f.text).isSome } := by
  unfold check Check.record read
  rw [Except.map_eq_ok_iff]
  constructor
  · intro h
    obtain ⟨p, hp, rfl⟩ := h
    obtain ⟨hread, hstrangers⟩ := Checked.both_eq_ok_iff.mp hp
    obtain ⟨s, hs, hread⟩ := Except.map_eq_ok_iff.mp hread
    exact ⟨s, hs, hstrangers, hread.symm⟩
  · intro h
    obtain ⟨s, hs, hstrangers, rfl⟩ := h
    refine ⟨(_, ()), Checked.both_eq_ok_iff.mpr ⟨?_, hstrangers⟩, rfl⟩
    exact Except.map_eq_ok_iff.mpr ⟨s, hs, rfl⟩

/-- A configuration takes each setting from its data by itself. -/
theorem check_value (h : check (.mapping data) = .ok c) (f : Setting) :
    taken data f = .ok (c.settings.value f) ∧ (f ∈ c.given ↔ (data.getText? f.text).isSome) := by
  obtain ⟨s, hs, -, rfl⟩ := check_mapping_eq_ok_iff.mp h
  have hvalue := readFrom_value nodup_all hs f
  rw [if_pos (Setting.mem_all f)] at hvalue
  exact ⟨hvalue, by simp [Setting.mem_all]⟩

/-- A configuration that was read from a value, with settings assigned since. -/
inductive Built : Configuration → Prop
  | checked {v : Value} {c : Configuration} (h : check v = .ok c) : Built c
  | assigned {c c' : Configuration} {name : Text} {v : Value} (hc : Built c)
      (h : c.assign name v = .ok c') : Built c'

/-- The given settings are listed in their order, each has a value that it takes, and the others
have their defaults. -/
structure Sound (c : Configuration) : Prop where
  ordered : c.given = Setting.all.filter fun f => c.given.contains f
  given : ∀ f ∈ c.given, f.validated (c.settings.value f) = .ok (c.settings.value f)
  default : ∀ f, f ∉ c.given → c.settings.value f = ({} : Settings).value f

theorem sound_of_check (h : check v = .ok c) : c.Sound := by
  cases v with
  | mapping data =>
    constructor
    case ordered =>
      obtain ⟨s, -, -, rfl⟩ := check_mapping_eq_ok_iff.mp h
      simp [Setting.mem_all]
    case given =>
      intro f hf
      obtain ⟨htaken, hgiven⟩ := check_value h f
      obtain ⟨w, hw⟩ := Option.isSome_iff_exists.mp (hgiven.mp hf)
      rw [taken, hw] at htaken
      exact Setting.validated_validated htaken
    case default =>
      intro f hf
      obtain ⟨htaken, hgiven⟩ := check_value h f
      have hnone : Mapping.getText? f.text data = none := by
        rw [← Option.not_isSome_iff_eq_none]
        exact fun hsome => hf (hgiven.mpr hsome)
      rw [taken, hnone] at htaken
      exact (Except.ok.inj htaken).symm
  | _ => cases h

theorem Sound.assign {name : Text} (hc : c.Sound) (h : c.assign name v = .ok c') : c'.Sound := by
  have h := Checked.below_eq_ok_iff.mp h
  split at h
  · cases h
  · rename_i g hg
    obtain ⟨change, hchange, rfl⟩ := Except.map_eq_ok_iff.mp h
    have hvalue := Setting.value_read hchange c.settings
    have hmem : ∀ f, f ∈ (Setting.all.filter fun s => s = g || c.given.contains s) ↔
        f = g ∨ f ∈ c.given := by
      intro f
      simp [Setting.mem_all]
    constructor
    case ordered =>
      apply List.filter_congr
      intro f _
      simp [Setting.mem_all]
    case given =>
      intro f hf
      by_cases hfg : f = g
      · subst hfg
        exact Setting.validated_validated (Setting.validated_read hchange c.settings)
      · have hgiven : f ∈ c.given := ((hmem f).mp hf).resolve_left hfg
        simp only [hvalue, if_neg hfg]
        exact hc.given f hgiven
    case default =>
      intro f hf
      have hother : f ≠ g ∧ f ∉ c.given := not_or.mp fun hor => hf ((hmem f).mpr hor)
      simp only [hvalue, if_neg hother.1]
      exact hc.default f hother.2

theorem Built.sound (h : Built c) : c.Sound := by
  induction h with
  | checked h => exact sound_of_check h
  | assigned _ h ih => exact ih.assign h

/-- In the mapping of the given settings each is found under its name. -/
theorem getText?_dump (c : Configuration) (f : Setting) :
    Mapping.getText? f.text c.dump = if f ∈ c.given then some (c.settings.value f) else none := by
  unfold dump Mapping.getText?
  induction c.given with
  | nil => rfl
  | cons g rest ih =>
    rw [List.map_cons, Mapping.get?]
    by_cases hg : g = f
    · subst hg
      rw [if_pos (Value.sameKey_text.mpr rfl), if_pos List.mem_cons_self]
    · have hkeys : ¬(Value.text g.text).sameKey (.text f.text) = true := by
        rw [Value.sameKey_text, Value.text.injEq, Setting.text_inj]
        exact hg
      rw [if_neg hkeys, ih]
      simp [Ne.symm hg]

theorem Sound.tidy_dump (hc : c.Sound) : Mapping.Tidy c.dump := by
  have hnodup : c.given.Nodup := by
    rw [hc.ordered]
    exact nodup_all.filter _
  unfold Mapping.Tidy dump
  rw [List.pairwise_map]
  apply hnodup.imp
  intro f g hfg
  rw [Bool.eq_false_iff, Ne, Value.sameKey_text, Value.text.injEq, Setting.text_inj]
  exact hfg

theorem exists_readFrom {fs : List Setting}
    (h : ∀ f ∈ fs, ∀ v, Mapping.getText? f.text data = some v → ∃ w, f.validated v = .ok w) :
    ∃ s, readFrom data fs = .ok s := by
  induction fs with
  | nil => exact ⟨{}, rfl⟩
  | cons f rest ih =>
    obtain ⟨s, hs⟩ := ih fun g hg => h g (List.mem_cons_of_mem f hg)
    unfold readFrom
    dsimp only
    rw [hs]
    cases hv : Mapping.getText? f.text data with
    | none => exact ⟨s, rfl⟩
    | some v =>
      obtain ⟨w, hw⟩ := h f List.mem_cons_self v hv
      obtain ⟨change, hchange, -⟩ := Except.map_eq_ok_iff.mp hw
      dsimp only
      rw [hchange]
      exact ⟨change s, rfl⟩

/-- No key is a stranger among the settings when each is the name of one. -/
theorem strangers_eq_ok_iff : Check.strangers (Setting.all.map Setting.text) data = .ok () ↔
    ∀ p ∈ data, ∃ f : Setting, p.1 = .text f.text := by
  have hok : ∀ found : List Issue, (if found.isEmpty then Except.ok () else
      .error (.issues found) : Checked Unit) = .ok () ↔ found = [] := by
    intro found
    split_ifs with hfound
    · exact iff_of_true rfl (List.isEmpty_iff.mp hfound)
    · exact iff_of_false (by simp) fun hnil => hfound (List.isEmpty_iff.mpr hnil)
  refine (hok _).trans (List.filterMap_eq_nil_iff.trans (forall₂_congr fun p _ => ?_))
  obtain ⟨key, value⟩ := p
  cases key with
  | text t =>
    have hlisted : t ∈ Setting.all.map Setting.text ↔ ∃ f : Setting, t = f.text := by
      simp [Setting.mem_all, eq_comm]
    simp [← hlisted]
  | _ => simp

theorem strangers_dump (c : Configuration) :
    Check.strangers (Setting.all.map Setting.text) c.dump = .ok () := by
  refine strangers_eq_ok_iff.mpr fun p hp => ?_
  obtain ⟨f, -, rfl⟩ := List.mem_map.mp hp
  exact ⟨f, rfl⟩

/-- A value for one setting is taken or refused whatever the others are, and makes a configuration
in which the setting has the value that it takes. -/
theorem check_insert (h : check (.mapping data) = .ok c) {f : Setting} {w : Value}
    (hw : f.validated v = .ok w) :
    ∃ c', check (.mapping (data.insert (.text f.text) v)) = .ok c' ∧ c'.settings.value f = w := by
  obtain ⟨_, -, hstrangers, -⟩ := check_mapping_eq_ok_iff.mp h
  have hfound : (data.insert (.text f.text) v).getText? f.text = some v := by
    rw [Mapping.getText?_insert, if_pos (Value.sameKey_text.mpr rfl)]
  obtain ⟨s, hs⟩ : ∃ s, readFrom (data.insert (.text f.text) v) Setting.all = .ok s := by
    apply exists_readFrom
    intro g _ u hu
    by_cases hg : f.text = g.text
    · rw [← hg, hfound] at hu
      rw [← Setting.text_inj.mp hg, ← Option.some.inj hu]
      exact ⟨w, hw⟩
    · have hother : ¬(Value.text f.text).sameKey (.text g.text) = true := by
        rwa [Value.sameKey_text, Value.text.injEq]
      rw [Mapping.getText?_insert, if_neg hother] at hu
      have htaken := (check_value h g).1
      rw [taken, hu] at htaken
      exact ⟨_, htaken⟩
  have hlisted : ∀ p ∈ data.insert (.text f.text) v, ∃ g : Setting, p.1 = .text g.text := by
    intro p hp
    rcases Mapping.key_of_mem_insert hp with hkey | ⟨q, hq, hkey⟩
    · exact ⟨f, hkey⟩
    · rw [← hkey]
      exact strangers_eq_ok_iff.mp hstrangers q hq
  have hcheck := check_mapping_eq_ok_iff.mpr ⟨s, hs, strangers_eq_ok_iff.mpr hlisted, rfl⟩
  refine ⟨_, hcheck, ?_⟩
  have htaken := (check_value hcheck f).1
  rw [taken, hfound] at htaken
  exact Except.ok.inj (htaken.symm.trans hw)

/-- The mapping of the given settings is read to the configuration that it is made from. -/
theorem Sound.check_dump (hc : c.Sound) : check (.mapping c.dump) = .ok c := by
  obtain ⟨s, hs⟩ : ∃ s, readFrom c.dump Setting.all = .ok s := by
    apply exists_readFrom
    intro f _ v hv
    rw [getText?_dump] at hv
    split_ifs at hv with hf
    rw [← Option.some.inj hv]
    exact ⟨_, hc.given f hf⟩
  have hcheck := check_mapping_eq_ok_iff.mpr ⟨s, hs, strangers_dump c, rfl⟩
  have hsettings : s = c.settings := by
    apply Settings.ext_value
    intro f
    have htaken := (check_value hcheck f).1
    rw [taken, getText?_dump] at htaken
    by_cases hf : f ∈ c.given
    · rw [if_pos hf] at htaken
      exact Except.ok.inj (htaken.symm.trans (hc.given f hf))
    · rw [if_neg hf] at htaken
      rw [hc.default f hf]
      exact (Except.ok.inj htaken).symm
  have hgiven : (Setting.all.filter fun f => (c.dump.getText? f.text).isSome) = c.given := by
    rw [hc.ordered]
    apply List.filter_congr
    intro f _
    rw [getText?_dump]
    by_cases hf : f ∈ c.given <;> simp [hf]
  rw [hcheck, hgiven, hsettings]

end Configuration

end ApiScaffold
