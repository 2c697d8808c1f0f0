import ApiScaffold.Proofs.ReadBackSettings

/-!
# Settings that are assigned one after another

A configuration is read once and then changed by assigning single settings, any number of times,
each attempt being accepted or refused. Whether a value is accepted depends on the setting and the
value alone. At every point the rules on settings hold, and every setting, defaults included, has
a value that it takes as it is. So the settings that were given, and also all settings together,
are read back to what they are.
-/
namespace ApiScaffold

open Text

theorem Text.ends_of_stripChar_eq_self {c : Char} {t : Text} (h : stripChar c t = t) :
    t.head? ≠ some c ∧ t.getLast? ≠ some c := by
  have hleft : stripLeft (· == c) t = t := by
    have hfixed := stripLeft_strip (· == c) t
    rwa [← stripChar, h] at hfixed
  have hright : stripRight (· == c) t = t := by
    rwa [stripChar, strip, hleft] at h
  constructor
  · intro hhead
    obtain ⟨rest, rfl⟩ : ∃ rest, t = c :: rest := List.head?_eq_some_iff.mp hhead
    exact List.dropWhile_eq_self_iff.mp hleft (Nat.succ_pos _) (beq_self_eq_true c)
  · intro hlast
    obtain ⟨front, rfl⟩ := List.getLast?_eq_some_iff.mp hlast
    have hkept := List.rdropWhile_eq_self_iff.mp hright (by simp)
    rw [List.getLast_concat] at hkept
    exact hkept (beq_self_eq_true c)

namespace Setting

/-- Every default passes its own check. -/
theorem validated_default (f : Setting) :
    f.validated (({} : Settings).value f) = .ok (({} : Settings).value f) := by
  cases f <;> rfl

end Setting

namespace Configuration

variable {c : Configuration} {v : Value} {name : Text}

/-- The configuration after an attempt to assign a setting. -/
def attempt (c : Configuration) (assignment : Text × Value) : Configuration :=
  match c.assign assignment.1 assignment.2 with
  | .ok c' => c'
  | .error _ => c

/-- The configuration after attempts to assign settings, one after another. -/
def attempts (c : Configuration) (assignments : List (Text × Value)) : Configuration :=
  assignments.foldl attempt c

/-- All settings as a mapping, given or not. -/
def dumpAll (c : Configuration) : Mapping := dump { c with given := Setting.all }

/-- An assignment is accepted when the value is one that the setting takes, whatever the
configuration is, and it changes that setting alone. -/
theorem assign_eq_ok_iff {c' : Configuration} : c.assign name v = .ok c' ↔
    ∃ f w, f.text = name ∧ f.validated v = .ok w ∧
      (∀ g, c'.settings.value g = if g = f then w else c.settings.value g) ∧
      c'.given = Setting.all.filter fun g => g = f || c.given.contains g := by
  unfold assign
  rw [Checked.below_eq_ok_iff]
  constructor
  · intro h
    split at h
    · cases h
    · rename_i f hf
      obtain ⟨change, hchange, rfl⟩ := Except.map_eq_ok_iff.mp h
      have hname : f.text = name := by simpa using List.find?_some hf
      exact ⟨f, _, hname, Setting.validated_read hchange {}, Setting.value_read hchange _, rfl⟩
  · rintro ⟨f, w, rfl, hvalidated, hvalues, hgiven⟩
    obtain ⟨change, hchange, rfl⟩ := Except.map_eq_ok_iff.mp hvalidated
    have hsettings : change c.settings = c'.settings := Settings.ext_value fun g => by
      rw [hvalues, Setting.value_read hchange]
    rw [Setting.ofText?_text]
    refine Except.map_eq_ok_iff.mpr ⟨change, hchange, ?_⟩
    rw [hsettings, ← hgiven]

theorem Built.attempt (hc : Built c) (assignment : Text × Value) :
    Built (c.attempt assignment) := by
  unfold Configuration.attempt
  split
  · rename_i hassign
    exact .assigned hc hassign
  · exact hc

theorem Built.attempts (hc : Built c) (assignments : List (Text × Value)) :
    Built (c.attempts assignments) := by
  unfold Configuration.attempts
  induction assignments generalizing c with
  | nil => exact hc
  | cons assignment rest ih => exact ih (hc.attempt assignment)

theorem Built.accepted (hc : Built c) : c.settings.Accepted := by
  induction hc with
  | checked h => exact check_accepted h
  | assigned _ h ih => exact assign_accepted h ih

/-- Every setting has a value that it takes as it is, whether it was given or not. -/
theorem Sound.validated (hc : c.Sound) (f : Setting) :
    f.validated (c.settings.value f) = .ok (c.settings.value f) := by
  by_cases hf : f ∈ c.given
  · exact hc.given f hf
  · rw [hc.default f hf]
    exact f.validated_default

theorem Sound.check_dumpAll (hc : c.Sound) :
    check (.mapping c.dumpAll) = .ok { c with given := Setting.all } := by
  refine Sound.check_dump ⟨?_, fun f _ => hc.validated f, fun f hf => absurd f.mem_all hf⟩
  exact (List.filter_eq_self.mpr fun f _ => by simp [Setting.mem_all]).symm

theorem Sound.root_ends (hc : c.Sound) :
    c.settings.rootNamespace.head? ≠ some '\\' ∧
      c.settings.rootNamespace.getLast? ≠ some '\\' := by
  refine Text.ends_of_stripChar_eq_self ?_
  obtain ⟨change, hchange, hvalue⟩ := Except.map_eq_ok_iff.mp (hc.validated .rootNamespace)
  obtain ⟨root, hroot, rfl⟩ := Except.map_eq_ok_iff.mp hchange
  have hsame : root = c.settings.rootNamespace := Value.text.inj hvalue
  rw [← hsame]
  exact Setting.stripChar_of_namespaceOf hroot

/-- A configuration that is read and then changed by attempts to assign settings keeps the rules on
settings at every point, and both the settings that were given and all settings together are read
back to what they are. Whatever assignment comes next, it is accepted exactly when the setting
takes the value, and then it changes that setting alone; a refused one changes nothing. -/
theorem attempts_keep_rules (h : check v = .ok c) (assignments : List (Text × Value)) :
    let d := c.attempts assignments
    d.settings.Accepted ∧
      (d.settings.rootNamespace.head? ≠ some '\\' ∧
        d.settings.rootNamespace.getLast? ≠ some '\\') ∧
      check (.mapping d.dump) = .ok d ∧
      check (.mapping d.dumpAll) = .ok { d with given := Setting.all } ∧
      ∀ name value,
        (∀ d', d.assign name value = .ok d' ↔
          ∃ f w, f.text = name ∧ f.validated value = .ok w ∧
            (∀ g, d'.settings.value g = if g = f then w else d.settings.value g) ∧
            d'.given = Setting.all.filter fun g => g = f || d.given.contains g) ∧
        ((∃ d', d.assign name value = .ok d' ∧
            c.attempts (assignments ++ [(name, value)]) = d') ∨
          (∃ e, d.assign name value = .error e) ∧
            c.attempts (assignments ++ [(name, value)]) = d) := by
  have hbuilt : Built (c.attempts assignments) := (Built.checked h).attempts assignments
  have hsound := hbuilt.sound
  refine ⟨hbuilt.accepted, hsound.root_ends, hsound.check_dump, hsound.check_dumpAll,
    fun name value => ⟨fun d' => assign_eq_ok_iff, ?_⟩⟩
  have hnext : c.attempts (assignments ++ [(name, value)]) =
      (c.attempts assignments).attempt (name, value) := by
    rw [attempts, List.foldl_append]
    rfl
  rw [hnext, attempt]
  cases hassign : (c.attempts assignments).assign name value with
  | ok d' => exact Or.inl ⟨d', rfl, rfl⟩
  | error e => exact Or.inr ⟨⟨e, rfl⟩, rfl⟩

/-- A configuration with one setting given. -/
def appInSrc : Configuration := { settings := { appPath := "src" }, given := [.appPath] }

/-- Attempts of which the second and the last are refused. -/
def someAttempts : List (Text × Value) :=
  [("root_namespace", .text "\\Acme\\Shop\\"), ("app_path", .text []),
    ("generate_data", .bool false), ("colour", .text "red")]

theorem someAttempts_keep_rules :
    let d := appInSrc.attempts someAttempts
    check (.mapping [(.text "app_path", .text "src")]) = .ok appInSrc ∧
      d.settings = { rootNamespace := "Acme\\Shop", appPath := "src", generateData := false } ∧
      d.settings.Accepted ∧ check (.mapping d.dump) = .ok d := by
  have hcheck : check (.mapping [(.text "app_path", .text "src")]) = .ok appInSrc := rfl
  obtain ⟨haccepted, -, hdump, -⟩ := attempts_keep_rules hcheck someAttempts
  exact ⟨hcheck, by decide +kernel, haccepted, hdump⟩

end Configuration

end ApiScaffold
