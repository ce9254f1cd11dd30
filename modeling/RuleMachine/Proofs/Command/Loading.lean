import RuleMachine.Proofs.Command.ReadOnly
import RuleMachine.Proofs.Files.Temporary
import RuleMachine.Proofs.Ruleset.Walk

set_option autoImplicit false

namespace RuleMachine

namespace FileSystem

variable {fs : FileSystem} {path : String}

def HasFile (fs : FileSystem) (path : String) : Prop :=
  ∃ l content, fs.locate path = .ok l ∧ fs.contentAt? l = some (some content)

theorem isFile_iff : fs.isFile path = true ↔ fs.HasFile path := by
  unfold isFile HasFile
  cases fs.locate path with
  | error e => simp
  | ok l =>
    simp only [contentAt?, FileNode.contentAt?, Except.ok.injEq, exists_and_left, exists_eq_left']
    cases fs.root.find? l with
    | none => simp
    | some node => cases node <;> simp [FileNode.isDirectory, FileNode.content?]

end FileSystem

namespace ReadOnly

variable {α β ε ε' : Type} {v : Volume}

theorem run_bindExcept {work : ExceptT ε (StateM Volume) α}
    {next : α → ExceptT ε (StateM Volume) β} {result : Except ε α} {f : α → Except ε β}
    (h : work.run.run v = (result, v)) (hnext : ∀ a, (next a).run.run v = (f a, v)) :
    (work >>= next).run.run v = (result >>= f, v) := by
  rw [ExceptT.run_bind, StateT.run_bind, h]
  cases result with
  | ok a => exact hnext a
  | error e => rfl

theorem run_adapt {work : ExceptT ε (StateM Volume) α} {result : Except ε α} (f : ε → ε')
    (h : work.run.run v = (result, v)) :
    (work.adapt f).run.run v = (result.mapError f, v) := by
  change ((work.run.run v).1.mapError f, (work.run.run v).2) = _
  rw [h]

theorem run_readText [TempFiles] (path : String) :
    (RuleMachine.readText (m := StateM Volume) path).run.run v = (v.readText path, v) :=
  run_bindExcept rfl fun _ => rfl

end ReadOnly

namespace SourceReaders

variable {lib : SourceReaders} {v : Volume} {path text : String} {rules : Ruleset}
  {settings : Settings}

/-- The path of a source tells its format, and the draft in its text is in order. -/
def RulesAt (lib : SourceReaders) (v : Volume) (path : String) (rules : Ruleset) : Prop :=
  ∃ format text draft, SourceFormat.ofPath path = .ok format ∧ v.readText path = .ok text ∧
    lib.draft format text = .ok draft ∧ draft.check = .ok rules

/-- A file holds the text of settings, with a limit on steps that is not zero. -/
def SettingsAt (lib : SourceReaders) (v : Volume) (path : String) (settings : Settings) : Prop :=
  ∃ text, v.readText path = .ok text ∧ lib.settings text = some settings ∧
    settings.interpreter.maxSteps ≠ some 0

/-- The settings of a directory: those in a file of a fixed name, or the default ones if there is no
such file. -/
def Discovered (lib : SourceReaders) (v : Volume) (directory : String) (settings : Settings) :
    Prop :=
  v.HasFile (FilePath.join directory "rulebyte.toml") ∧
      lib.SettingsAt v (FilePath.join directory "rulebyte.toml") settings ∨
    ¬ v.HasFile (FilePath.join directory "rulebyte.toml") ∧
      settings = ⟨⟨false, true⟩, ⟨.lenient, none⟩⟩

theorem checkedSettings_eq_ok_iff : lib.checkedSettings text = .ok settings ↔
    lib.settings text = some settings ∧ settings.interpreter.maxSteps ≠ some 0 := by
  unfold checkedSettings
  cases lib.settings text with
  | none => simp
  | some read =>
    by_cases hzero : read.interpreter.maxSteps = some 0
    · simp only [if_pos hzero, reduceCtorEq, Option.some.injEq, false_iff, not_and]
      rintro rfl hnot
      exact hnot hzero
    · simp only [if_neg hzero, Except.ok.injEq, Option.some.injEq, iff_self_and]
      rintro rfl
      exact hzero

theorem ruleset_eq_ok_iff {format : SourceFormat} : lib.ruleset format text = .ok rules ↔
    ∃ draft, lib.draft format text = .ok draft ∧ draft.check = .ok rules := by
  rw [ruleset, Except.bind_eq_ok]
  refine exists_congr fun draft => and_congr_right fun _ => ?_
  rw [Except.mapError_eq_ok, draft.validate_eq_check]

variable [TempFiles]

theorem run_readSource (path : String) :
    (readSource (m := StateM Volume) path).run.run v = ((do
      let format ← SourceFormat.ofPath path
      return (format, ← (v.readText path).mapError .io)), v) :=
  ReadOnly.run_bindExcept rfl fun _ => ReadOnly.run_bindExcept
    (ReadOnly.run_adapt _ (ReadOnly.run_readText path)) fun _ => rfl

theorem exists_run_loadRuleset (lib : SourceReaders) (v : Volume) (path : String) :
    ∃ result, (lib.loadRuleset (m := StateM Volume) path).run.run v = (result, v) ∧
      ∀ rules, result = .ok rules ↔ lib.RulesAt v path rules := by
  refine ⟨_, ReadOnly.run_bindExcept (run_readSource path)
    (f := fun source => lib.ruleset source.1 source.2) fun _ => rfl, fun rules => ?_⟩
  simp only [Except.bind_eq_ok, Except.mapError_eq_ok, ruleset_eq_ok_iff]
  constructor
  · rintro ⟨source, ⟨format, hformat, text, htext, hsource⟩, draft, hdraft, hcheck⟩
    cases hsource
    exact ⟨format, text, draft, hformat, htext, hdraft, hcheck⟩
  · rintro ⟨format, text, draft, hformat, htext, hdraft, hcheck⟩
    exact ⟨_, ⟨format, hformat, text, htext, rfl⟩, draft, hdraft, hcheck⟩

theorem exists_run_loadSettings (lib : SourceReaders) (v : Volume) (path : String) :
    ∃ result, (lib.loadSettings (m := StateM Volume) path).run.run v = (result, v) ∧
      ∀ settings, result = .ok settings ↔ lib.SettingsAt v path settings := by
  refine ⟨_, ReadOnly.run_bindExcept (ReadOnly.run_adapt _ (ReadOnly.run_readText path))
    (f := lib.checkedSettings) fun _ => rfl, fun settings => ?_⟩
  simp only [Except.bind_eq_ok, Except.mapError_eq_ok, checkedSettings_eq_ok_iff]
  exact Iff.rfl

theorem exists_run_discoverSettings (lib : SourceReaders) (v : Volume) (directory : String) :
    ∃ result, (lib.discoverSettings (m := StateM Volume) directory).run.run v = (result, v) ∧
      ∀ settings, result.map Prod.fst = .ok settings ↔ lib.Discovered v directory settings := by
  obtain ⟨loaded, hrun, hloaded⟩ :=
    lib.exists_run_loadSettings v (FilePath.join directory "rulebyte.toml")
  unfold discoverSettings Discovered Settings.fileName
  rw [← FileSystem.isFile_iff]
  generalize FilePath.join directory "rulebyte.toml" = path at *
  have hthere : (liftM (FileAccess.isFile (m := StateM Volume) path) :
      ExceptT SettingsError (StateM Volume) Bool).run.run v = (.ok (v.isFile path), v) := rfl
  refine ⟨_, ReadOnly.run_bindExcept hthere (f := fun there =>
    if there = true then loaded >>= fun settings => .ok (settings, some path) else .ok ({}, none))
    fun there => ?_, fun settings => ?_⟩
  · cases there with
    | true => exact ReadOnly.run_bindExcept hrun fun _ => rfl
    | false => rfl
  · cases v.isFile path with
    | true =>
      simp only [true_and, not_true, false_and, or_false, ← hloaded]
      cases loaded with
      | ok found => exact Iff.rfl
      | error e => exact iff_of_false nofun nofun
    | false =>
      simp only [Bool.false_eq_true, false_and, not_false_eq_true, true_and, false_or]
      exact ⟨fun h => (Except.ok.inj h).symm, fun h => h ▸ rfl⟩

end SourceReaders

/-- The settings of a command: those of the file that it names, or else what is discovered in the
current directory. -/
inductive Invocation.Configured (i : Invocation) (lib : SourceReaders) (v : Volume)
    (settings : Settings) : Prop where
  | named {path : String} (given : i.settings = some path)
      (loaded : lib.SettingsAt v path settings) : Configured i lib v settings
  | discovered {directory : String} (unnamed : i.settings = none)
      (here : v.currentDirectory = .ok directory)
      (discovered : lib.Discovered v directory settings) : Configured i lib v settings

namespace Invocation

variable {i : Invocation} {lib : SourceReaders} {v : Volume} {settings settings' : Settings}

theorem configured_of_some {path : String} (h : i.settings = some path) :
    i.Configured lib v settings ↔ lib.SettingsAt v path settings := by
  refine ⟨fun hconfigured => ?_, .named h⟩
  cases hconfigured with
  | named given loaded =>
    cases h.symm.trans given
    exact loaded
  | discovered unnamed here discovered => cases h.symm.trans unnamed

theorem configured_of_none (h : i.settings = none) : i.Configured lib v settings ↔
    ∃ directory, v.currentDirectory = .ok directory ∧ lib.Discovered v directory settings := by
  refine ⟨fun hconfigured => ?_, fun ⟨_, here, discovered⟩ => .discovered h here discovered⟩
  cases hconfigured with
  | named given loaded => cases h.symm.trans given
  | discovered unnamed here discovered => exact ⟨_, here, discovered⟩

open CommandM

theorem exists_runOn_loadSettings [TempFiles] (lib : SourceReaders) (i : Invocation) (v : Volume)
    (output : String) : ∃ result,
      (i.loadSettings (m := StateM Volume) lib).runOn output v = ((result, output), v) ∧
      ∀ settings, result = .ok settings ↔ i.Configured lib v settings := by
  unfold loadSettings
  split
  · rename_i path hpath
    obtain ⟨result, hrun, hresult⟩ := lib.exists_run_loadSettings v path
    refine ⟨_, runOn_inContext hrun, fun settings => ?_⟩
    rw [Except.mapError_eq_ok, hresult, configured_of_some hpath]
  · rename_i hnone
    simp only [configured_of_none hnone]
    have hhere : (FileAccess.currentDirectory : StateM Volume (Except FileError String)).run v =
      (v.currentDirectory, v) := rfl
    cases hdirectory : v.currentDirectory with
    | error e =>
      rw [hdirectory] at hhere
      refine ⟨_, runOn_bind_of_error (runOn_inContext hhere), fun settings => ?_⟩
      exact iff_of_false nofun fun ⟨_, h, _⟩ => nomatch h
    | ok directory =>
      rw [hdirectory] at hhere
      simp only [Except.ok.injEq, exists_eq_left']
      obtain ⟨result, hrun, hresult⟩ := lib.exists_run_discoverSettings v directory
      rw [runOn_bind_of_ok (runOn_inContext hhere)]
      cases result with
      | ok found =>
        refine ⟨_, runOn_bind_of_ok (runOn_inContext hrun), fun settings => ?_⟩
        rw [← hresult, Except.map, Except.ok.injEq, Except.ok.injEq]
      | error e =>
        refine ⟨_, runOn_bind_of_error (runOn_inContext hrun), fun settings => ?_⟩
        rw [← hresult]
        exact iff_of_false nofun nofun

theorem Configured.unique (h : i.Configured lib v settings) (h' : i.Configured lib v settings') :
    settings' = settings := by
  obtain ⟨result, -, hresult⟩ := @exists_runOn_loadSettings .named lib i v ""
  exact (Except.ok.inj (((hresult settings).2 h).symm.trans ((hresult settings').2 h'))).symm

end Invocation

end RuleMachine
