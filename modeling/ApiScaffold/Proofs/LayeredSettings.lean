import ApiScaffold.Proofs.DraftOrder
import ApiScaffold.Proofs.ReadBackSettings
import ApiScaffold.Proofs.Refinement

/-!
# Settings from several places

A generation from a draft file takes its settings from the overrides, from the draft and from the
configuration that it was started with. They are put into one section, which is then read as if the
draft had brought it. So a setting comes from the first of these places that names it, by itself
and whatever the other settings are, and a setting that was taken once is not changed by being read
again.
-/
namespace ApiScaffold

open Text

namespace Draft

variable {raw raw' merged : Mapping} {overrides overrides' : Value} {name : Text}

theorem settingsOf_layer (layer : Option Mapping) :
    settingsOf ((layer.map .mapping).getD .null) = .ok (layer.getD []) := by
  cases layer with
  | none => rfl
  | some pairs => cases pairs <;> rfl

/-- The configuration that the merged settings make. -/
def merge (data : Mapping) : Except Failure Configuration :=
  match Configuration.check (.mapping data) with
  | .ok c => .ok c
  | .error (.issues found) => .error (.draft (.invalidConfiguration found))
  | .error (.misuse m) => .error (.misuse m)

theorem merge_eq_ok_iff {c : Configuration} :
    merge merged = .ok c ↔ Configuration.check (.mapping merged) = .ok c := by
  unfold merge
  split <;> simp_all

theorem configuration_eq : configuration raw overrides = (do
    let own ← (settingsOf ((section? raw "config").getD .null)).mapError .misuse
    let given ← (settingsOf overrides).mapError .misuse
    merge (Mapping.insertAll given (Mapping.ofPairs own))) := rfl

theorem section?_insert_same (v : Value) : Draft.section? (Mapping.insert (.text name) v raw) name =
    (some v).filter Value.isTruthy := by
  rw [section?, Mapping.getText?_insert, if_pos (Value.sameKey_text.mpr rfl)]

theorem section?_insert_other {key : Text} (h : key ≠ name) (v : Value) :
    Draft.section? (Mapping.insert (.text key) v raw) name = Draft.section? raw name := by
  have hkey : ¬(Value.text key).sameKey (.text name) = true := by
    rw [Value.sameKey_text, Value.text.injEq]
    exact h
  rw [section?, Mapping.getText?_insert, if_neg hkey, section?]

/-- Settings that are put into the draft are its configuration. -/
theorem configuration_insert (h : merged.Tidy) :
    configuration (Mapping.insert (.text "config") (.mapping merged) raw) .null = merge merged := by
  have hown : settingsOf ((section? (Mapping.insert (.text "config") (.mapping merged) raw)
      "config").getD .null) = .ok merged := by
    rw [section?_insert_same]
    cases merged <;> rfl
  have hmade : Mapping.insertAll [] (Mapping.ofPairs merged) = merged := Mapping.ofPairs_of_tidy h
  calc configuration (Mapping.insert (.text "config") (.mapping merged) raw) .null
      = merge (Mapping.insertAll [] (Mapping.ofPairs merged)) := by
        rw [configuration_eq, hown]
        rfl
    _ = merge merged := by rw [hmade]

/-- Besides its configuration a draft is read by its models and its controllers alone. -/
theorem parse_congr {sourceFile : Option Text}
    (hconfig : configuration raw' overrides' = configuration raw overrides)
    (hmodels : section? raw' "models" = section? raw "models")
    (hcontrollers : section? raw' "controllers" = section? raw "controllers") :
    parse raw' overrides' sourceFile = parse raw overrides sourceFile := by
  unfold parse sectionPairs
  rw [hconfig, hmodels, hcontrollers]

theorem parseNoting_snd (raw : Mapping) (overrides : Value) (sourceFile : Option Text) :
    (parseNoting raw overrides sourceFile).2 = parse raw overrides sourceFile := by
  unfold parseNoting
  split <;> simp_all

theorem exists_mapping {x : Except Failure Mapping} {name : Text}
    (h : (x.toOption.any fun raw => (section? raw name).any
      fun v => v matches .mapping _) = true) :
    ∃ raw own, x = .ok raw ∧ section? raw name = some (.mapping own) := by
  cases x with
  | error f => cases h
  | ok raw =>
    change ((section? raw name).any fun v => v matches .mapping _) = true at h
    cases hv : section? raw name with
    | none =>
      rw [hv] at h
      cases h
    | some v =>
      rw [hv] at h
      cases v with
      | mapping own => exact ⟨raw, own, rfl, hv⟩
      | _ => cases h

end Draft

namespace Generation

variable {site : Site} {tree : Tree} {base : Option Configuration} {path : Path}
  {raw merged : Mapping} {own above : Option Mapping} {overrides : Value}
  {schema : Schema} {config : Configuration}

/-- What a setting comes to when it may be named in overrides, in a draft and in a configuration. -/
def layered (above own : Mapping) (base : Option Configuration) (f : Setting) : Checked Value :=
  match Mapping.getText? f.text (Mapping.ofPairs above),
      Mapping.getText? f.text (Mapping.ofPairs own), base with
  | some v, _, _ => f.validated v
  | none, some v, _ => f.validated v
  | none, none, some G =>
    .ok (if f ∈ G.given then G.settings.value f else ({} : Settings).value f)
  | none, none, none => .ok (({} : Settings).value f)

/-- What a draft file that can be loaded comes to. -/
theorem readDraft_snd (hload : Draft.load tree site.cwd path = .ok raw)
    (hmerged : mergedSettings base raw overrides = .ok merged) :
    (readDraft site tree base path overrides).2 =
      Draft.parse (Mapping.insert (.text "config") (.mapping merged) raw) .null
        (some path.text) := by
  unfold readDraft
  rw [hload]
  dsimp only
  rw [hmerged]
  exact Draft.parseNoting_snd _ _ _

theorem mergedSettings_layers (base : Option Configuration) (above : Option Mapping)
    (hown : Draft.section? raw "config" = own.map .mapping) :
    mergedSettings base raw ((above.map .mapping).getD .null) =
      .ok (Mapping.insertAll (above.getD [])
        (Mapping.insertAll (own.getD []) ((base.map Configuration.dump).getD []))) := by
  unfold mergedSettings
  rw [hown, Draft.settingsOf_layer, Draft.settingsOf_layer]
  rfl

theorem tidy_base (hbase : ∀ G ∈ base, G.Built) :
    Mapping.Tidy ((base.map Configuration.dump).getD []) := by
  cases base with
  | none => exact List.Pairwise.nil
  | some G => exact (hbase G rfl).sound.tidy_dump

/-- Merged settings have each key once. -/
theorem tidy_merged (hbase : ∀ G ∈ base, G.Built)
    (h : mergedSettings base raw overrides = .ok merged) : merged.Tidy := by
  unfold mergedSettings at h
  cases hown : Draft.settingsOf ((Draft.section? raw "config").getD .null) with
  | error m =>
    rw [hown] at h
    cases h
  | ok own =>
    cases habove : Draft.settingsOf overrides with
    | error m =>
      rw [hown, habove] at h
      cases h
    | ok above =>
      rw [hown, habove] at h
      rw [← Except.ok.inj h]
      exact ((tidy_base hbase).insertAll own).insertAll above

/-- Each setting is taken from the first place that names it. -/
theorem taken_insertAll (hbase : ∀ G ∈ base, G.Built) (above own : Mapping) (f : Setting) :
    Configuration.taken (Mapping.insertAll above
      (Mapping.insertAll own ((base.map Configuration.dump).getD []))) f =
        layered above own base f := by
  unfold Configuration.taken layered
  rw [Mapping.getText?_insertAll, Mapping.getText?_insertAll]
  cases Mapping.getText? f.text (Mapping.ofPairs above) with
  | some v => rfl
  | none =>
    cases Mapping.getText? f.text (Mapping.ofPairs own) with
    | some v => rfl
    | none =>
      cases base with
      | none => rfl
      | some G =>
        have hfound := Configuration.getText?_dump G f
        simp only [Option.none_or, Option.map_some, Option.getD_some, hfound]
        by_cases hf : f ∈ G.given
        · rw [if_pos hf, if_pos hf]
          exact (hbase G rfl).sound.given f hf
        · rw [if_neg hf, if_neg hf]

theorem readDraft_layered (hload : Draft.load tree site.cwd path = .ok raw)
    (hown : Draft.section? raw "config" = own.map .mapping) (hbase : ∀ G ∈ base, G.Built)
    (hread : (readDraft site tree base path ((above.map .mapping).getD .null)).2 =
      .ok (schema, config)) (f : Setting) :
    layered (above.getD []) (own.getD []) base f = .ok (config.settings.value f) := by
  have hmerged := mergedSettings_layers base above hown
  rw [readDraft_snd hload hmerged] at hread
  have hconfig := (Draft.parse_eq_ok_iff.mp hread).1
  rw [Draft.configuration_insert (tidy_merged hbase hmerged), Draft.merge_eq_ok_iff] at hconfig
  rw [← taken_insertAll hbase]
  exact (Configuration.check_value hconfig f).1

/-- Without settings in the draft and without overrides, those of the configuration are taken. -/
theorem eq_of_layered_nil {s : Settings} (hbase : ∀ G ∈ base, G.Built)
    (h : ∀ f, layered [] [] base f = .ok (s.value f)) :
    s = ((base.map Configuration.settings).getD {}) := by
  apply Settings.ext_value
  intro f
  have hvalue := h f
  cases base with
  | none => exact (Except.ok.inj hvalue).symm
  | some G =>
    change Except.ok (if f ∈ G.given then _ else _) = Except.ok (s.value f) at hvalue
    by_cases hf : f ∈ G.given
    · rw [if_pos hf] at hvalue
      exact (Except.ok.inj hvalue).symm
    · rw [if_neg hf] at hvalue
      calc s.value f = ({} : Settings).value f := (Except.ok.inj hvalue).symm
        _ = G.settings.value f := ((hbase G rfl).sound.default f hf).symm

/-- A generation from a draft file that comes to its end has gone by a configuration in which each
setting is the checked one of the overrides if they name it, else that of the draft, else that of
the configuration of the generation if it was given there, else the default. That configuration
can be written down and read again as it is. -/
theorem ofFile_settings {mode : Mode} {output : Path} {r : GenerationReport}
    (hload : Draft.load tree site.cwd path = .ok raw)
    (hown : Draft.section? raw "config" = own.map .mapping) (hbase : ∀ G ∈ base, G.Built)
    (hvalue : (ofFile site mode tree base path output ((above.map .mapping).getD .null)).value =
      .ok r) :
    (∀ G ∈ base, Configuration.check (.mapping G.dump) = .ok G) ∧
    ∃ schema config said r₀,
      readDraft site tree base path ((above.map .mapping).getD .null) =
        (said, .ok (schema, config)) ∧
      ofFile site mode tree base path output ((above.map .mapping).getD .null) =
        { proceed site mode tree schema config.settings output r₀ with
          log := said ++ (proceed site mode tree schema config.settings output r₀).log } ∧
      (∀ f, layered (above.getD []) (own.getD []) base f = .ok (config.settings.value f)) ∧
      (own.getD [] = [] → above.getD [] = [] →
        config.settings = ((base.map Configuration.settings).getD {})) := by
  refine ⟨fun G hG => (hbase G hG).sound.check_dump, ?_⟩
  unfold ofFile at hvalue ⊢
  cases hread : readDraft site tree base path ((above.map .mapping).getD .null) with
  | mk said found =>
    rw [hread] at hvalue
    cases found with
    | error f => cases hvalue
    | ok found =>
      obtain ⟨schema, config⟩ := found
      have hlayered := fun f => readDraft_layered hload hown hbase (by rw [hread]) f
      refine ⟨schema, config, said, _, rfl, rfl, hlayered, fun hnone habove => ?_⟩
      rw [hnone, habove] at hlayered
      exact eq_of_layered_nil hbase hlayered

/-- A tree with a draft that has settings of its own. -/
def draftTree : Tree :=
  ⟨(["draft.yaml"], .file (utf8
    "config: \x7broot_namespace: Draft, generate_data: false\x7d")) :: plainTree.entries⟩

def draftFile : Path := .ofText "draft.yaml"

/-- A configuration with a namespace, and a path that was assigned later. -/
def startedWith : Configuration :=
  { settings := { rootNamespace := "Ctor", appPath := "src" }, given := [.rootNamespace, .appPath] }

theorem startedWith_built : startedWith.Built := by
  have hread : Configuration.check (.mapping [(.text "root_namespace", .text "\\Ctor\\")]) =
      .ok { settings := { rootNamespace := "Ctor" }, given := [.rootNamespace] } := rfl
  have hassign : Configuration.assign
      { settings := { rootNamespace := "Ctor" }, given := [.rootNamespace] } "app_path"
      (.text "src") = .ok startedWith := rfl
  exact .assigned (.checked hread) hassign

def namespaceOverride : Mapping := [(.text "root_namespace", .text "Cli")]

theorem threePlaces_settings :
    ∃ raw own r, Draft.load draftTree plainSite.cwd draftFile = .ok raw ∧
      Draft.section? raw "config" = some (.mapping own) ∧
      (ofFile plainSite {} draftTree (some startedWith) draftFile newOutput
        (.mapping namespaceOverride)).value = .ok r ∧
      ∃ config : Configuration, (∀ f, layered namespaceOverride own (some startedWith) f =
          .ok (config.settings.value f)) ∧
        config.settings.rootNamespace = "Cli" ∧ config.settings.appPath = "src" ∧
        config.settings.generateData = false := by
  obtain ⟨raw, own, hload, hown⟩ : ∃ raw own,
      Draft.load draftTree plainSite.cwd draftFile = .ok raw ∧
        Draft.section? raw "config" = some (.mapping own) :=
    Draft.exists_mapping (by decide +kernel)
  obtain ⟨r, hr⟩ : ∃ r, (ofFile plainSite {} draftTree (some startedWith) draftFile newOutput
      (.mapping namespaceOverride)).value = .ok r :=
    exists_ok (by decide +kernel)
  have hbase : ∀ G ∈ some startedWith, G.Built := by
    intro G hG
    cases hG
    exact startedWith_built
  obtain ⟨-, schema, config, said, r₀, hread, -, hlayered, -⟩ :=
    @ofFile_settings _ _ _ _ _ (some own) (some namespaceOverride) _ _ _ hload hown hbase hr
  refine ⟨raw, own, r, hload, hown, hr, config, hlayered, ?_⟩
  have hsettings : (readDraft plainSite draftTree (some startedWith) draftFile
      (.mapping namespaceOverride)).2.toOption.any (fun p =>
        p.2.settings.rootNamespace = ("Cli" : Text) && p.2.settings.appPath = ("src" : Text) &&
          !p.2.settings.generateData) = true := by
    decide +kernel
  change (readDraft plainSite draftTree (some startedWith) draftFile
      (.mapping namespaceOverride)) = _ at hread
  rw [hread] at hsettings
  simpa [Except.toOption, and_assoc] using hsettings

end Generation

end ApiScaffold
