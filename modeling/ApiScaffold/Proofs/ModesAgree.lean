import ApiScaffold.CommandLine.Program
import ApiScaffold.Proofs.LayeredSettings

/-!
# Validating and generating

A validation and a strict generation of the same draft agree on how they end. They read the draft
in different ways, the one under the overrides and the other with all settings merged into the
draft, and they come to the same schema and configuration or to the same failure. From there on a
generation ends like a validation that succeeds only if it has something to do for which a stub is
missing. Failures of the file system are left out: a validation lets them pass and a generation
reports most of them.
-/
namespace ApiScaffold

open Text

namespace Draft

variable {raw merged : Mapping} {overrides : Value} {sourceFile : Option Text}

theorem parse_ne_system (e : SystemError) :
    parse raw overrides sourceFile ≠ .error (.system e) := by
  intro h
  have hreads := reads_parse raw overrides sourceFile
  rw [h] at hreads
  obtain ⟨d, hd⟩ | ⟨-, m, hm⟩ := hreads
  · cases hd
  · cases hm

/-- The configuration of a draft is made of its settings with the overrides merged in. -/
theorem configuration_eq_merged : configuration raw overrides =
    ((Generation.mergedSettings none raw overrides).mapError .misuse).bind merge := by
  rw [configuration_eq, Generation.mergedSettings]
  cases settingsOf ((section? raw "config").getD .null) with
  | error m => rfl
  | ok own => cases settingsOf overrides <;> rfl

/-- It is all the same whether overrides are given apart or were merged into the draft. -/
theorem parse_merged (h : Generation.mergedSettings none raw overrides = .ok merged) :
    parse (Mapping.insert (.text "config") (.mapping merged) raw) .null sourceFile =
      parse raw overrides sourceFile := by
  apply parse_congr
  · have htidy : merged.Tidy := Generation.tidy_merged (by simp) h
    rw [configuration_insert htidy, configuration_eq_merged, h]
    rfl
  · exact section?_insert_other (by decide) _
  · exact section?_insert_other (by decide) _

theorem parse_of_misuse {m : Misuse}
    (h : Generation.mergedSettings none raw overrides = .error m) :
    parse raw overrides sourceFile = .error (.misuse m) := by
  unfold parse
  rw [configuration_eq_merged, h]
  rfl

end Draft

namespace CommandLine

variable {site : Site} {o : Options} {tree : Tree} {draft output : Path} {overrides : Value}
  {schema : Schema} {config : Configuration}

/-- Both modes read a draft file to the same, or fail in the same way. -/
theorem readDraft_agrees (site : Site) (tree : Tree) (draft : Path) (overrides : Value) :
    (Generation.readDraft site tree none draft overrides).2 =
      (readDraft site tree draft overrides).2 := by
  unfold readDraft
  cases hload : Draft.load tree site.cwd draft with
  | error f =>
    unfold Generation.readDraft
    rw [hload]
  | ok raw =>
    dsimp only
    rw [Draft.parseNoting_snd]
    cases hmerged : Generation.mergedSettings none raw overrides with
    | ok merged => rw [Generation.readDraft_snd hload hmerged, Draft.parse_merged hmerged]
    | error m =>
      rw [Draft.parse_of_misuse hmerged]
      unfold Generation.readDraft
      rw [hload]
      dsimp only
      rw [hmerged]

/-! ## What is asked of the file system -/

def Options.mode (o : Options) : Mode := { strict := !o.noStrict, dryRun := o.dryRun }

/-- The generation of a run with the given options. -/
def generation (site : Site) (o : Options) (tree : Tree) (draft output : Path) :
    Result GenerationReport :=
  Generation.ofFile site o.mode tree none draft output o.overrides

/-- The state in which a generation does the first of its jobs. -/
def firstRun (site : Site) (o : Options) (tree : Tree) (output : Path) (s : Settings) : Run :=
  { tree, stubs := Job.repository site s
    emitter := Generation.emitter s o.mode (Path.resolve site.cwd output) }

/-- The emitter that writes the manifest of a finished generation. -/
def manifestEmitter (output : Path) (m : Manifest) : Emitter :=
  let start := Emitter.start output true false
  { start with manifest := { start.manifest with files := m.files } }

/-- No call of a validation or a generation to the file system fails, and no job of the generation
ends it: a job is done, or it is skipped because its class stub is missing. -/
structure Unhindered (site : Site) (o : Options) (tree : Tree) (draft output : Path) : Prop where
  loads : ∀ e, Draft.load tree site.cwd draft ≠ .error (.system e)
  reaches : ∃ directory, Path.real site.cwd output = .ok directory
  checks : ∀ schema config, (readDraft site tree draft o.overrides).2 = .ok (schema, config) →
    ∀ e, Check.full tree site.cwd schema config.settings ≠ .error (.system e)
  works : ∀ schema config found,
    (readDraft site tree draft o.overrides).2 = .ok (schema, config) →
    Check.full tree site.cwd schema config.settings = .ok found → found.isValid = true →
      (Run.steps site config.settings (firstRun site o tree output config.settings)
        (Job.all schema config.settings)).2 = .ok ()
  saves : ∀ file r m, o.manifest = some file → file ≠ [] → o.dryRun = false →
    (generation site o tree draft output).value = .ok r → r.manifest = some m →
    ∃ p, ((manifestEmitter output m).writeManifest (generation site o tree draft output).tree
      site.cwd file).2 = .ok p

/-! ## How the modes end -/

/-- How a generation in a tree may end, and with which tree, when a validation ends in the first
way. -/
inductive Agrees (tree : Tree) : Except Failure Exit → Except Failure Exit → Tree → Prop
  | failed (f : Failure) : Agrees tree (.error f) (.error f) tree
  | unread : Agrees tree (.ok .badInput) (.ok .badInput) tree
  | refused : Agrees tree (.ok .invalidDraft) (.ok .invalidDraft) tree
  | complete (after : Tree) : Agrees tree (.ok .success) (.ok .success) after
  | incomplete (after : Tree) : Agrees tree (.ok .success) (.ok .incomplete) after

theorem validate_status : (validate site tree draft overrides).status =
    match (readDraft site tree draft overrides).2 with
    | .error f => (unread tree f).status
    | .ok (schema, config) =>
      match Check.full tree site.cwd schema config.settings with
      | .error f => .error f
      | .ok found => .ok (if found.isValid then .success else .invalidDraft) := by
  unfold validate
  cases readDraft site tree draft overrides with
  | mk said found =>
    cases found with
    | error f => rfl
    | ok found =>
      obtain ⟨schema, config⟩ := found
      dsimp only
      cases Check.full tree site.cwd schema config.settings <;> rfl

theorem readDraft_ne_system (hloads : ∀ e, Draft.load tree site.cwd draft ≠ .error (.system e))
    (e : SystemError) : (readDraft site tree draft overrides).2 ≠ .error (.system e) := by
  unfold readDraft
  cases hload : Draft.load tree site.cwd draft with
  | error f =>
    intro h
    rw [hload] at hloads
    exact hloads e (congrArg Except.error (Except.error.inj h))
  | ok raw =>
    dsimp only
    rw [Draft.parseNoting_snd]
    exact Draft.parse_ne_system e

/-- A draft that was not read ends both modes before anything is written. -/
theorem unread_agrees {f : Failure} (hread : (readDraft site tree draft o.overrides).2 = .error f)
    (hsystem : ∀ e, f ≠ .system e) :
    Agrees tree (unread tree f).status (generate site o tree draft output).status
      (generate site o tree draft output).tree := by
  rw [← readDraft_agrees] at hread
  unfold generate Generation.ofFile
  cases hgeneration : Generation.readDraft site tree none draft o.overrides with
  | mk said found =>
    rw [hgeneration] at hread
    obtain rfl : found = .error f := hread
    cases hload : isLoadFailure f with
    | true =>
      simp only [unread, hload, if_true]
      exact .unread
    | false =>
      have hfile : fileError? f = none := by
        cases f with
        | system e => exact absurd rfl (hsystem e)
        | _ => rfl
      simp only [unread, blocked, hload, hfile]
      exact .failed f

/-- A generation that comes to a report may write the manifest at last. -/
theorem generate_of_value {r : GenerationReport}
    (hvalue : (generation site o tree draft output).value = .ok r) :
    (generate site o tree draft output).status =
        (saveManifest site o (generation site o tree draft output).tree output r).status ∧
      (generate site o tree draft output).tree =
        (saveManifest site o (generation site o tree draft output).tree output r).tree := by
  unfold generation Options.mode at hvalue ⊢
  unfold generate
  dsimp only
  rw [hvalue]
  dsimp only
  unfold closed Episode.said
  dsimp only
  split <;> simp_all

theorem saveManifest_status {r : GenerationReport} {after : Tree}
    (h : ∀ file m, o.manifest = some file → file ≠ [] → o.dryRun = false → r.manifest = some m →
      ∃ p, ((manifestEmitter output m).writeManifest after site.cwd file).2 = .ok p) :
    (saveManifest site o after output r).status = .ok (verdict o r) := by
  unfold saveManifest
  split
  · rename_i c file m hfile hm
    cases hdry : o.dryRun with
    | true => rfl
    | false =>
      obtain ⟨p, hp⟩ := h (c :: file) m hfile (List.cons_ne_nil _ _) hdry hm
      simp only [manifestEmitter] at hp
      simp only [Bool.false_eq_true, if_false]
      split
      · simp_all
      · rfl
  · rfl

theorem saveManifest_tree {r : GenerationReport} {after : Tree} (h : r.manifest = none) :
    (saveManifest site o after output r).tree = after := by
  unfold saveManifest
  rw [h]
  split
  · rename_i hm
    cases hm
  · rfl

/-- A draft that was read is generated like its schema. -/
theorem generation_of_read (output : Path)
    (hread : (readDraft site tree draft o.overrides).2 = .ok (schema, config)) :
    ∃ r : GenerationReport, r.manifest = none ∧
      (generation site o tree draft output).tree =
        (Generation.proceed site o.mode tree schema config.settings output r).tree ∧
      (generation site o tree draft output).value =
        (Generation.proceed site o.mode tree schema config.settings output r).value := by
  rw [← readDraft_agrees] at hread
  unfold generation Generation.ofFile
  cases hgeneration : Generation.readDraft site tree none draft o.overrides with
  | mk said found =>
    rw [hgeneration] at hread
    obtain rfl : found = .ok (schema, config) := hread
    exact ⟨_, rfl, rfl, rfl⟩

end CommandLine

namespace Generation

variable {site : Site} {mode : Mode} {tree : Tree} {schema : Schema} {s : Settings}
  {output directory : Path} {found : Report}

/-- A generation fails with the checks. -/
theorem proceed_halted {f : Failure} (r : GenerationReport)
    (hreal : Path.real site.cwd output = .ok directory)
    (hfull : Check.full tree site.cwd schema s = .error f) :
    Halted tree f (proceed site mode tree schema s output r) := by
  unfold proceed
  rw [hreal]
  dsimp only
  rw [hfull]
  exact ⟨rfl, rfl⟩

/-- A strict generation stops at an error of the checks. -/
theorem proceed_refused (r : GenerationReport) (hreal : Path.real site.cwd output = .ok directory)
    (hfull : Check.full tree site.cwd schema s = .ok found) (hstrict : mode.strict = true)
    (hinvalid : found.isValid = false) :
    (proceed site mode tree schema s output r).tree = tree ∧
      ∃ r', (proceed site mode tree schema s output r).value = .ok r' ∧
        r'.success = false ∧ r'.validationErrors ≠ [] ∧ r'.manifest = r.manifest := by
  have herrors : found.errors ≠ [] := by
    intro hnone
    simp [Report.isValid, hnone] at hinvalid
  unfold proceed
  rw [hreal]
  dsimp only
  rw [hfull]
  dsimp only
  rw [if_pos (by simp [hinvalid, hstrict])]
  refine ⟨rfl, _, rfl, ?_⟩
  rw [finish_fst]
  simp [hstrict, herrors]

/-- A generation without errors of the checks comes to a report when its jobs come to their end. -/
theorem proceed_worked (r : GenerationReport) (hreal : Path.real site.cwd output = .ok directory)
    (hfull : Check.full tree site.cwd schema s = .ok found) (hvalid : found.isValid = true)
    (hworks : (Run.steps site s
      { tree, stubs := Job.repository site s, emitter := emitter s mode directory }
      (Job.all schema s)).2 = .ok ()) :
    ∃ r', (proceed site mode tree schema s output r).value = .ok r' ∧ r'.validationErrors = [] := by
  have herrors : found.errors = [] := List.isEmpty_iff.mp hvalid
  unfold proceed
  rw [hreal]
  dsimp only
  rw [hfull]
  dsimp only
  rw [if_neg (by simp [hvalid])]
  unfold doJobs
  unfold emitter at hworks
  dsimp only
  cases hsteps : Run.steps site s
      { tree, stubs := Job.repository site s
        emitter := Emitter.start directory s.atomicWrites mode.dryRun } (Job.all schema s) with
  | mk run came =>
    rw [hsteps] at hworks
    obtain rfl : came = .ok () := hworks
    refine ⟨_, rfl, ?_⟩
    rw [finish_fst]
    simp [jobsReport, herrors]

end Generation

namespace CommandLine

variable {site : Site} {o : Options} {tree : Tree} {draft output : Path} {clock t : Text}

/-- A strict generation refuses an invalid draft and leaves the tree as it is. -/
theorem generate_refused {schema : Schema} {config : Configuration} {found : Report}
    {directory : Path} (hstrict : o.noStrict = false)
    (hread : (readDraft site tree draft o.overrides).2 = .ok (schema, config))
    (hreal : Path.real site.cwd output = .ok directory)
    (hfull : Check.full tree site.cwd schema config.settings = .ok found)
    (hinvalid : found.isValid = false) :
    (generate site o tree draft output).status = .ok .invalidDraft ∧
      (generate site o tree draft output).tree = tree := by
  have hmode : o.mode.strict = true := by simp [Options.mode, hstrict]
  obtain ⟨r, hnone, htree, hvalue⟩ := generation_of_read output hread
  obtain ⟨hsame, r', hr', hfailed, herrors, hmanifest⟩ :=
    Generation.proceed_refused r hreal hfull hmode hinvalid
  rw [hr'] at hvalue
  rw [hnone] at hmanifest
  obtain ⟨hstatus, hafter⟩ := generate_of_value hvalue
  have hverdict : verdict o r' = .invalidDraft := by simp [verdict, hfailed, herrors, hstrict]
  constructor
  · rw [hstatus, ← hverdict]
    apply saveManifest_status
    intro file m _ _ _ hm
    rw [hmanifest] at hm
    cases hm
  · rw [hafter, saveManifest_tree hmanifest, htree, hsame]

/-- A generation fails with the checks and leaves the tree as it is. -/
theorem generate_halted {schema : Schema} {config : Configuration} {directory : Path} {m : Misuse}
    (hread : (readDraft site tree draft o.overrides).2 = .ok (schema, config))
    (hreal : Path.real site.cwd output = .ok directory)
    (hfull : Check.full tree site.cwd schema config.settings = .error (.misuse m)) :
    (generate site o tree draft output).status = .error (.misuse m) ∧
      (generate site o tree draft output).tree = tree := by
  obtain ⟨r, -, htree, hvalue⟩ := generation_of_read output hread
  have hhalted : Generation.Halted tree (.misuse m)
      (Generation.proceed site o.mode tree schema config.settings output r) :=
    Generation.proceed_halted r hreal hfull
  rw [hhalted.tree] at htree
  rw [hhalted.value] at hvalue
  unfold generation Options.mode at htree hvalue
  unfold generate
  dsimp only
  rw [hvalue, htree]
  exact ⟨rfl, rfl⟩

/-- A generation that is not hindered makes the files of a valid draft, or some of them. -/
theorem generate_worked {schema : Schema} {config : Configuration} {found : Report}
    (hclear : Unhindered site o tree draft output)
    (hread : (readDraft site tree draft o.overrides).2 = .ok (schema, config))
    (hfull : Check.full tree site.cwd schema config.settings = .ok found)
    (hvalid : found.isValid = true) :
    (generate site o tree draft output).status = .ok .success ∨
      (generate site o tree draft output).status = .ok .incomplete := by
  obtain ⟨directory, hreal⟩ := hclear.reaches
  obtain rfl := Path.eq_resolve_of_real hreal
  obtain ⟨r, -, -, hvalue⟩ := generation_of_read output hread
  obtain ⟨r', hr', herrors⟩ := Generation.proceed_worked r hreal hfull hvalid
    (hclear.works schema config found hread hfull hvalid)
  rw [hr'] at hvalue
  have hstatus : (generate site o tree draft output).status = .ok (verdict o r') := by
    rw [(generate_of_value hvalue).1]
    apply saveManifest_status
    intro file m hfile hne hdry hm
    exact hclear.saves file r' m hfile hne hdry hvalue hm
  rw [hstatus]
  cases hsuccess : r'.success with
  | true => exact Or.inl (by simp [verdict, hsuccess])
  | false => exact Or.inr (by simp [verdict, hsuccess, herrors])

/-- A generation that is not hindered ends as the validation lets expect. -/
theorem generate_agrees (hstrict : o.noStrict = false)
    (hclear : Unhindered site o tree draft output) :
    Agrees tree (validate site tree draft o.overrides).status
      (generate site o tree draft output).status (generate site o tree draft output).tree := by
  cases hread : (readDraft site tree draft o.overrides).2 with
  | error f =>
    have hvalidate : (validate site tree draft o.overrides).status = (unread tree f).status := by
      rw [validate_status, hread]
    rw [hvalidate]
    apply unread_agrees hread
    intro e he
    rw [he] at hread
    exact readDraft_ne_system hclear.loads e hread
  | ok read =>
    obtain ⟨schema, config⟩ := read
    cases hfull : Check.full tree site.cwd schema config.settings with
    | error f =>
      have hvalidate : (validate site tree draft o.overrides).status = .error f := by
        rw [validate_status, hread]
        dsimp only
        rw [hfull]
      rcases Check.full_eq_error hfull with ⟨m, rfl, -⟩ | ⟨e, rfl⟩
      · obtain ⟨directory, hreal⟩ := hclear.reaches
        obtain ⟨hstatus, htree⟩ := generate_halted hread hreal hfull
        rw [hvalidate, hstatus, htree]
        exact .failed _
      · exact absurd hfull (hclear.checks schema config hread e)
    | ok found =>
    have hvalidate : (validate site tree draft o.overrides).status =
        .ok (if found.isValid then .success else .invalidDraft) := by
      rw [validate_status, hread]
      dsimp only
      rw [hfull]
    rw [hvalidate]
    cases hvalid : found.isValid with
    | false =>
      obtain ⟨directory, hreal⟩ := hclear.reaches
      obtain ⟨hstatus, htree⟩ := generate_refused hstrict hread hreal hfull hvalid
      rw [hstatus, htree]
      exact .refused
    | true =>
      rcases generate_worked hclear hread hfull hvalid with hstatus | hstatus
      · rw [hstatus]
        exact .complete _
      · rw [hstatus]
        exact .incomplete _

theorem perform_validating (hpath : o.draftPath site.cwd = .ok (some draft)) :
    (perform site clock { o with validateOnly := true } tree).status =
      (validate site tree draft o.overrides).status := by
  have hdraft : Options.draftPath { o with validateOnly := true } site.cwd = .ok (some draft) :=
    hpath
  unfold perform
  rw [hdraft]
  rfl

theorem perform_generating (clock : Text) (tree : Tree) (hdelete : o.delete = none)
    (hout : o.output = some t) (hreal : Path.real site.cwd (.ofText t) = .ok output)
    (hpath : o.draftPath site.cwd = .ok (some draft)) :
    (perform site clock { o with validateOnly := false } tree).status =
        (generate site o tree draft output).status ∧
      (perform site clock { o with validateOnly := false } tree).tree =
        (generate site o tree draft output).tree := by
  have hdraft : Options.draftPath { o with validateOnly := false } site.cwd = .ok (some draft) :=
    hpath
  unfold perform
  rw [hdraft]
  simp only [Bool.false_eq_true, if_false, hout, hreal]
  unfold produce
  simp only [hdelete]
  constructor <;> rfl

/-- Both modes as runs with the same options. -/
theorem perform_agrees (hdelete : o.delete = none) (hstrict : o.noStrict = false)
    (hout : o.output = some t) (hreal : Path.real site.cwd (.ofText t) = .ok output)
    (hclear : ∀ draft, o.draftPath site.cwd = .ok (some draft) →
      Unhindered site o tree draft output) :
    Agrees tree (perform site clock { o with validateOnly := true } tree).status
      (perform site clock { o with validateOnly := false } tree).status
      (perform site clock { o with validateOnly := false } tree).tree := by
  have hdraft : ∀ b, Options.draftPath { o with validateOnly := b } site.cwd =
      o.draftPath site.cwd := fun _ => rfl
  cases hpath : o.draftPath site.cwd with
  | error e =>
    rw [hpath] at hdraft
    unfold perform
    rw [hdraft, hdraft]
    exact .failed (.system e)
  | ok found =>
    cases found with
    | none =>
      rw [hpath] at hdraft
      unfold perform
      rw [hdraft, hdraft]
      simp only [Bool.false_eq_true, if_true, if_false, hout, hreal]
      unfold produce
      simp only [hdelete]
      exact .failed (.misuse .noPath)
    | some draft =>
      obtain ⟨hstatus, htree⟩ := perform_generating clock tree hdelete hout hreal hpath
      rw [perform_validating hpath, hstatus, htree]
      exact generate_agrees hstrict (hclear draft hpath)

/-- A run ends with the exit status of the given number. -/
def Outcome.Exits (out : Outcome) (n : Nat) : Prop := ∃ e, out.status = .ok e ∧ e.code = n

theorem exits_iff {out : Outcome} {e : Exit} (h : out.status = .ok e) (n : Nat) :
    out.Exits n ↔ e.code = n := by
  unfold Outcome.Exits
  rw [h]
  simp

theorem not_exits {out : Outcome} {f : Failure} (h : out.status = .error f) (n : Nat) :
    ¬out.Exits n := by
  unfold Outcome.Exits
  rw [h]
  simp

/-- A validation and a strict generation with the same options agree, as long as no call to the
file system fails and no artifact is given up but for a missing stub: they refuse the same drafts,
as unreadable or as invalid, and nothing is written then; drafts that the one accepts the other
generates, if only in part; and they let the same failures pass. -/
theorem validate_iff_generate (hdelete : o.delete = none) (hstrict : o.noStrict = false)
    (hout : o.output = some t) (hreal : Path.real site.cwd (.ofText t) = .ok output)
    (hclear : ∀ draft, o.draftPath site.cwd = .ok (some draft) →
      Unhindered site o tree draft output) :
    let validated := perform site clock { o with validateOnly := true } tree
    let generated := perform site clock { o with validateOnly := false } tree
    (validated.Exits 4 ↔ generated.Exits 4) ∧ (validated.Exits 1 ↔ generated.Exits 1) ∧
      (generated.Exits 4 ∨ generated.Exits 1 → generated.tree = tree) ∧
      (validated.Exits 0 ↔ generated.Exits 0 ∨ generated.Exits 2) ∧
      ∀ f, validated.status = .error f ↔ generated.status = .error f := by
  intro validated generated
  have hagrees : Agrees tree validated.status generated.status generated.tree :=
    perform_agrees hdelete hstrict hout hreal hclear
  generalize hv : validated.status = v, hg : generated.status = g, ha : generated.tree = after
    at hagrees
  cases hagrees with
  | failed f => simp [not_exits hv, not_exits hg]
  | unread => simp [exits_iff hv, exits_iff hg, Exit.code]
  | refused => simp [exits_iff hv, exits_iff hg, Exit.code]
  | complete => simp [exits_iff hv, exits_iff hg, Exit.code]
  | incomplete => simp [exits_iff hv, exits_iff hg, Exit.code]

/-- A draft of one model, and no stubs. -/
def stublessTree : Tree :=
  ⟨[(["draft.yaml"], .file (utf8 "models: \x7bPost: \x7btitle: string\x7d\x7d"))]⟩

def postOptions : Options := { draft := some "draft.yaml", output := some "out" }

def postFile : Path := ⟨"/", ["draft.yaml"]⟩

def postOutput : Path := ⟨"/", ["out"]⟩

theorem stubless_unhindered :
    Unhindered plainSite postOptions stublessTree postFile postOutput := by
  have heverything : (readDraft plainSite stublessTree postFile
      postOptions.overrides).2.toOption.any (fun p =>
        (Check.full stublessTree plainSite.cwd p.1 p.2.settings).isOk &&
          (Run.steps plainSite p.2.settings
            (firstRun plainSite postOptions stublessTree postOutput p.2.settings)
            (Job.all p.1 p.2.settings)).2.isOk) = true := by
    decide +kernel
  obtain ⟨read, hread, hcalls⟩ := exists_ok_of_any heverything
  obtain ⟨hfull, hsteps⟩ := Bool.and_eq_true_iff.mp hcalls
  constructor
  case loads =>
    intro e hload
    unfold readDraft at hread
    rw [hload] at hread
    cases hread
  case reaches => exact ⟨postOutput, rfl⟩
  case checks =>
    intro schema config hfound
    rw [hread] at hfound
    cases hfound
    obtain ⟨found, hfound⟩ := exists_ok hfull
    intro e he
    rw [hfound] at he
    cases he
  case works =>
    intro schema config found hfound _ _
    rw [hread] at hfound
    cases hfound
    obtain ⟨_, hsteps⟩ := exists_ok hsteps
    exact hsteps
  case saves =>
    intro file r m hfile
    cases hfile

theorem stubless_agree :
    let validated := perform plainSite [] { postOptions with validateOnly := true } stublessTree
    let generated := perform plainSite [] { postOptions with validateOnly := false } stublessTree
    Unhindered plainSite postOptions stublessTree postFile postOutput ∧
      validated.Exits 0 ∧ (generated.Exits 0 ∨ generated.Exits 2) := by
  intro validated generated
  have hvalidated : validated.Exits 0 := by
    have hstatus : validated.status.toOption.any (fun e => e.code = 0) = true := by decide +kernel
    obtain ⟨e, he, hcode⟩ := exists_ok_of_any hstatus
    exact ⟨e, he, of_decide_eq_true hcode⟩
  have hclear : ∀ draft, postOptions.draftPath plainSite.cwd = .ok (some draft) →
      Unhindered plainSite postOptions stublessTree draft postOutput := by
    intro draft hdraft
    have hpath : postOptions.draftPath plainSite.cwd = .ok (some postFile) := rfl
    rw [hpath] at hdraft
    cases hdraft
    exact stubless_unhindered
  obtain ⟨-, -, -, hdone, -⟩ :=
    @validate_iff_generate plainSite postOptions stublessTree postOutput [] "out" rfl rfl rfl rfl
      hclear
  exact ⟨stubless_unhindered, hvalidated, hdone.mp hvalidated⟩

end CommandLine

end ApiScaffold
