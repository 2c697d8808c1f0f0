import ApiScaffold.Proofs.NameCharacters
import ApiScaffold.Proofs.Results
import ApiScaffold.Settings

/-!
# The rules that settings keep

Settings are read one by one, all together for a configuration and singly when one is assigned
later. What a reading may change keeps every rule on settings, so the rules hold of a configuration
from its beginning on. Rules that take the draft or the files into account are not among these.
-/
namespace ApiScaffold

open Text

/-- The rules on settings. -/
structure Settings.Accepted (s : Settings) : Prop where
  root : asLine isNamespace s.rootNamespace = true
  appPath : s.appPath ≠ []
  defaultMethods : s.defaultControllerMethods.Nodup
  methodVerbs : s.methodVerbs.Nodup

theorem Settings.accepted_default : Accepted {} := ⟨by decide, by decide, by decide, by decide⟩

theorem Checked.both_eq_ok_iff {α β : Type} {x : Checked α} {y : Checked β} {p : α × β} :
    x.both y = .ok p ↔ x = .ok p.1 ∧ y = .ok p.2 := by
  unfold Checked.both
  constructor
  · intro h
    split at h <;> cases h
    exact ⟨rfl, rfl⟩
  · rintro ⟨rfl, rfl⟩
    rfl

theorem Checked.below_eq_ok_iff {α : Type} {x : Checked α} {step : Step} {a : α} :
    x.below step = .ok a ↔ x = .ok a := by
  unfold Checked.below
  split <;> simp

theorem Check.ne_nil_of_nonEmptyText {v : Value} {t : Text} (h : nonEmptyText v = .ok t) :
    t ≠ [] := by
  unfold nonEmptyText at h
  split at h
  · cases h
  · rename_i hne
    rintro rfl
    exact hne h

namespace Setting

theorem namespaceOf_ok {v : Value} {t : Text} (h : namespaceOf v = .ok t) :
    asLine isNamespace t = true := by
  obtain ⟨written, -, h⟩ := Except.bind_eq_ok_iff.mp h
  dsimp only at h
  split_ifs at h with hform
  · cases h
    exact hform
  · cases h

theorem methodsOf_ok {v : Value} {methods : List Text} (h : methodsOf v = .ok methods) :
    methods.Nodup := by
  obtain ⟨written, -, h⟩ := Except.bind_eq_ok_iff.mp h
  split_ifs at h with hnodup
  · cases h
    exact hnodup
  · cases h

/-- What a setting is read to change keeps the rules. -/
theorem read_accepted {setting : Setting} {v : Value} {change : Settings → Settings}
    (h : setting.read v = .ok change) {s : Settings} (hs : s.Accepted) : (change s).Accepted := by
  cases setting with
  | rootNamespace =>
    obtain ⟨root, hroot, rfl⟩ := Except.map_eq_ok_iff.mp h
    exact { hs with root := namespaceOf_ok hroot }
  | appPath =>
    obtain ⟨path, hpath, rfl⟩ := Except.map_eq_ok_iff.mp h
    exact { hs with appPath := Check.ne_nil_of_nonEmptyText hpath }
  | defaultControllerMethods =>
    obtain ⟨methods, hmethods, rfl⟩ := Except.map_eq_ok_iff.mp h
    exact { hs with defaultMethods := methodsOf_ok hmethods }
  | methodVerbs =>
    obtain ⟨verbs, hverbs, rfl⟩ := Except.map_eq_ok_iff.mp h
    exact { hs with methodVerbs := methodsOf_ok hverbs }
  | modelsNamespace | controllerNamespace | stubPaths | generateControllers | generateData
  | controllersForAllModels | enumStrategy | enumSuffixes | enumClasses | sortableColumns
  | documentForeignKeys | atomicWrites =>
    obtain ⟨x, -, rfl⟩ := Except.map_eq_ok_iff.mp h
    exact { hs with }

end Setting

namespace Configuration

theorem readFrom_accepted {data : Mapping} {settings : List Setting} {s : Settings}
    (h : readFrom data settings = .ok s) : s.Accepted := by
  induction settings generalizing s with
  | nil =>
    cases h
    exact Settings.accepted_default
  | cons setting rest ih =>
    obtain ⟨⟨change, s'⟩, hboth, rfl⟩ := Except.map_eq_ok_iff.mp h
    obtain ⟨hchange, hrest⟩ := Checked.both_eq_ok_iff.mp hboth
    have hs' : s'.Accepted := ih hrest
    split at hchange
    · cases hchange
      exact hs'
    · exact Setting.read_accepted (Checked.below_eq_ok_iff.mp hchange) hs'

/-- A configuration keeps the rules from the beginning. -/
theorem check_accepted {v : Value} {c : Configuration} (h : check v = .ok c) :
    c.settings.Accepted := by
  unfold check Check.record at h
  split at h
  · obtain ⟨⟨c', _⟩, hboth, rfl⟩ := Except.map_eq_ok_iff.mp h
    obtain ⟨hread, -⟩ := Checked.both_eq_ok_iff.mp hboth
    obtain ⟨s, hs, rfl⟩ := Except.map_eq_ok_iff.mp hread
    exact readFrom_accepted hs
  · cases h

/-- An assignment keeps the rules. -/
theorem assign_accepted {c c' : Configuration} {name : Text} {v : Value}
    (h : c.assign name v = .ok c') (hc : c.settings.Accepted) : c'.settings.Accepted := by
  have h := Checked.below_eq_ok_iff.mp h
  split at h
  · cases h
  · obtain ⟨change, hchange, rfl⟩ := Except.map_eq_ok_iff.mp h
    exact Setting.read_accepted hchange hc

end Configuration

end ApiScaffold
