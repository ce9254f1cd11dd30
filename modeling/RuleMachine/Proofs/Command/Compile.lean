import Mathlib.Control.Monad.Basic
import RuleMachine.Proofs.Command.Loading
import RuleMachine.Proofs.Compiler.Stored
/-!
Compiling from one file to another is all or nothing. What is done before the program is stored
reads files and writes none, and storing it is the last thing that can fail.
-/

set_option autoImplicit false

namespace RuleMachine

/-- The work is done and leaves files as it is meant to, or it fails because it cannot, and leaves
them as they are. -/
def CommandM.AllOrNothing (work : CommandM (StateM Volume) Unit) (output : String)
    (v : Volume) (meant : Volume → Prop) : Prop :=
  (∃ output' v', work.runOn output v = ((.ok (), output'), v') ∧ meant v') ∨
    (∃ f output', work.runOn output v = ((.error f, output'), v) ∧ ∀ v', ¬ meant v')

/-- A program is written to a temporary file, and that is moved to the path. -/
def TempFiles.Stores (T : TempFiles) (v : Volume) (path : String) (program : Program)
    (v' : Volume) : Prop :=
  ∃ file v₁ v₂, (T.create (FilePath.directory path)).run v = (.ok file, v₁) ∧
    (T.write file program.bytes).run v₁ = (.ok (), v₂) ∧
    (T.persist file path).run v₂ = (.ok (), v')

namespace CommandM.AllOrNothing

variable {α : Type} {v : Volume} {output : String} {meant : Volume → Prop}

theorem then_write {work : CommandM (StateM Volume) Unit}
    (h : work.AllOrNothing output v meant) (text : String) :
    AllOrNothing (do work; write text) output v meant := by
  obtain ⟨output', v', hrun, hmeant⟩ | ⟨f, output', hrun, hmeant⟩ := h
  · exact .inl ⟨output' ++ text, v', runOn_bind_of_ok hrun, hmeant⟩
  · exact .inr ⟨f, output', runOn_bind_of_error hrun, hmeant⟩

theorem congr {work : CommandM (StateM Volume) Unit} {meant' : Volume → Prop}
    (h : work.AllOrNothing output v meant) (hiff : ∀ v', meant' v' ↔ meant v') :
    work.AllOrNothing output v meant' := by
  rwa [show meant' = meant from funext fun v' => propext (hiff v')]

theorem storeProgram {T : TempFiles} (hT : T.Lawful) (path : String) (program : Program)
    (output : String) (v : Volume) :
    AllOrNothing (storeProgram path program) output v (T.Stores v path program) := by
  unfold RuleMachine.storeProgram
  rcases hcreate : (T.create (FilePath.directory path)).run v with ⟨_ | file, v₁⟩
  · obtain rfl := hT.create_error hcreate
    refine .inr ⟨_, output, runOn_bind_of_ok (runOn_lift hcreate), ?_⟩
    rintro v' ⟨file, v₁, v₂, hmade, -, -⟩
    cases hcreate.symm.trans hmade
  rcases hwrite : (T.write file program.bytes).run v₁ with ⟨_ | _, v₂⟩
  · have hdiscard : (T.discard file).run v₂ = ((), v) :=
      Prod.ext rfl (hT.discard_written hcreate hwrite)
    refine .inr ⟨_, output, (runOn_bind_of_ok (runOn_lift hcreate)).trans
      ((runOn_bind_of_ok (runOn_lift hwrite)).trans (runOn_bind_of_ok (runOn_lift hdiscard))), ?_⟩
    rintro v' ⟨made, v₁, v₂, hmade, hwritten, -⟩
    cases hcreate.symm.trans hmade
    cases hwrite.symm.trans hwritten
  rcases hpersist : (T.persist file path).run v₂ with ⟨_ | _, v₃⟩
  · have hdiscard : (T.discard file).run v₃ = ((), v) :=
      Prod.ext rfl (hT.discard_unmoved hcreate hwrite hpersist)
    refine .inr ⟨_, output, (runOn_bind_of_ok (runOn_lift hcreate)).trans
      ((runOn_bind_of_ok (runOn_lift hwrite)).trans
        ((runOn_bind_of_ok (runOn_lift hpersist)).trans
          (runOn_bind_of_ok (runOn_lift hdiscard)))), ?_⟩
    rintro v' ⟨made, v₁, v₂, hmade, hwritten, hmoved⟩
    cases hcreate.symm.trans hmade
    cases hwrite.symm.trans hwritten
    cases hpersist.symm.trans hmoved
  · exact .inl ⟨output, v₃, (runOn_bind_of_ok (runOn_lift hcreate)).trans
      ((runOn_bind_of_ok (runOn_lift hwrite)).trans (runOn_bind_of_ok (runOn_lift hpersist))),
      file, v₁, v₂, hcreate, hwrite, hpersist⟩

end CommandM.AllOrNothing

theorem run_loadProgram [TempFiles] {v : Volume} {path : String} {program : Program}
    (hread : v.read path = .ok program.bytes) (hexact : program.Exact) :
    (loadProgram (m := StateM Volume) path).run.run v = (.ok program, v) := by
  have hbytes : ((readBytes (m := StateM Volume) path).adapt ProgramFileError.io).run.run v =
      (.ok program.bytes, v) := by
    change ((v.read path).mapError ProgramFileError.io, v) = _
    rw [hread]
    rfl
  rw [loadProgram, ExceptT.run_bind, StateT.run_bind, hbytes]
  dsimp only [bind]
  rw [Program.load_bytes hexact]
  rfl

namespace CompileOptions

variable {T : TempFiles} {lib : SourceReaders} {v v' : Volume} {o : CompileOptions}
  {settings : Settings} {rules : Ruleset}

/-- The files that a compilation of loaded rules is meant to leave, where it can be done. -/
inductive Compiles (T : TempFiles) (o : CompileOptions) (settings : Settings) (rules : Ruleset)
    (v : Volume) : Volume → Prop where
  | valid (only : o.validateOnly = true) : Compiles T o settings rules v v
  | stored {program : Program} {v' : Volume} (more : o.validateOnly = false)
      (compiled : o.program settings.compiler rules = .ok program)
      (stored : T.Stores v o.output program v') : Compiles T o settings rules v v'

theorem compiles_iff_stores {program : Program} (more : o.validateOnly = false)
    (compiled : o.program settings.compiler rules = .ok program) :
    o.Compiles T settings rules v v' ↔ T.Stores v o.output program v' := by
  refine ⟨fun h => ?_, .stored more compiled⟩
  cases h with
  | valid only => cases more.symm.trans only
  | stored _ compiled' stored =>
    cases compiled.symm.trans compiled'
    exact stored

theorem not_compiles_of_error {e : CompileError} (more : o.validateOnly = false)
    (failed : o.program settings.compiler rules = .error e) :
    ¬ o.Compiles T settings rules v v' := fun h => by
  cases h with
  | valid only => cases more.symm.trans only
  | stored _ compiled stored => cases failed.symm.trans compiled

theorem allOrNothing_perform (hT : T.Lawful) (o : CompileOptions) (verbose : Bool)
    (settings : Settings) (output : String) (v : Volume) :
    (o.perform lib verbose settings).AllOrNothing output v fun v' =>
      ∃ rules, lib.RulesAt v o.input rules ∧ o.Compiles T settings rules v v' := by
  obtain ⟨result, hrun, hloaded⟩ := lib.exists_run_loadRuleset v o.input
  unfold perform
  cases result with
  | error e =>
    refine .inr ⟨_, output, CommandM.runOn_bind_of_error (CommandM.runOn_inContext hrun), ?_⟩
    rintro v' ⟨rules, hrules, -⟩
    cases (hloaded rules).2 hrules
  | ok rules =>
    have hiff (v' : Volume) : (∃ rules, lib.RulesAt v o.input rules ∧
        o.Compiles T settings rules v v') ↔ o.Compiles T settings rules v v' := by
      constructor
      · rintro ⟨rules', hrules, hcompiles⟩
        cases (hloaded rules').2 hrules
        exact hcompiles
      · exact fun hcompiles => ⟨rules, (hloaded rules).1 rfl, hcompiles⟩
    refine CommandM.AllOrNothing.congr ?_ hiff
    rw [CommandM.AllOrNothing, CommandM.runOn_bind_of_ok (CommandM.runOn_inContext hrun)]
    cases hvalid : o.validateOnly with
    | true => exact .inl ⟨_, v, rfl, .valid hvalid⟩
    | false =>
      cases hcompile : o.program settings.compiler rules with
      | error e => exact .inr ⟨_, output, rfl, fun v' => not_compiles_of_error hvalid hcompile⟩
      | ok program =>
        have hstore (output : String) :=
          CommandM.AllOrNothing.storeProgram hT o.output program output v
        -- the listing is written before the file
        cases verbose with
        | false =>
          exact ((hstore output).then_write _).congr fun v' => compiles_iff_stores hvalid hcompile
        | true =>
          exact ((hstore (output ++ program.listing o.input)).then_write _).congr
            fun v' => compiles_iff_stores hvalid hcompile

theorem Compiles.eq_of_validateOnly (h : o.Compiles T settings rules v v')
    (only : o.validateOnly = true) : v' = v := by
  cases h with
  | valid only => rfl
  | stored more compiled stored => cases only.symm.trans more

theorem Compiles.program_of_not_validateOnly (hT : T.Lawful)
    (h : o.Compiles T settings rules v v') (more : o.validateOnly = false) :
    ∃ program target, o.program settings.compiler rules = .ok program ∧
      v'.locate o.output = .ok target ∧ v.Replaces v' target program.bytes ∧
      (loadProgram (m := StateM Volume) o.output).run.run v' = (.ok program, v') := by
  cases h with
  | valid only => cases only.symm.trans more
  | @stored program _ more compiled stored =>
    obtain ⟨file, v₁, v₂, hcreate, hwrite, hpersist⟩ := stored
    obtain ⟨target, htarget, hreplaces⟩ := hT.persist hcreate hwrite hpersist
    have hexact : program.Exact := (Compiler.emitted_of_compile compiled).exact
    exact ⟨program, target, compiled, htarget, hreplaces,
      run_loadProgram (hreplaces.read_target htarget) hexact⟩

end CompileOptions

namespace Invocation

variable {T : TempFiles} {i : Invocation} {o : CompileOptions}

theorem allOrNothing_perform (hT : T.Lawful) (lib : SourceReaders) (h : i.command = .compile o)
    (v : Volume) : (i.perform lib).AllOrNothing "" v fun v' =>
      ∃ settings rules, i.Configured lib v settings ∧ lib.RulesAt v o.input rules ∧
        o.Compiles T settings rules v v' := by
  obtain ⟨result, hrun, hconfigured⟩ := i.exists_runOn_loadSettings lib v ""
  unfold perform
  cases result with
  | error f =>
    refine .inr ⟨_, "", CommandM.runOn_bind_of_error hrun, ?_⟩
    rintro v' ⟨settings, rules, hsettings, -⟩
    cases (hconfigured settings).2 hsettings
  | ok settings =>
    rw [CommandM.AllOrNothing, CommandM.runOn_bind_of_ok hrun, h]
    refine (o.allOrNothing_perform hT i.verbose settings "" v).congr fun v' => ?_
    constructor
    · rintro ⟨settings', rules, hsettings, hrules, hcompiles⟩
      cases (hconfigured settings').2 hsettings
      exact ⟨rules, hrules, hcompiles⟩
    · rintro ⟨rules, hrules, hcompiles⟩
      exact ⟨settings, rules, (hconfigured settings).1 rfl, hrules, hcompiles⟩

theorem readOnly_perform [TempFiles] (lib : SourceReaders) (h : ∀ o, i.command ≠ .compile o) :
    CommandM.ReadOnly (i.perform (m := StateM Volume) lib) := by
  have hsettings : CommandM.ReadOnly (i.loadSettings (m := StateM Volume) lib) :=
    fun output v => by
      obtain ⟨result, hrun, -⟩ := i.exists_runOn_loadSettings lib v output
      rw [hrun]
  refine hsettings.bind fun settings => ?_
  split
  · rename_i o hcommand
    exact absurd hcommand (h o)
  · exact .performRun lib _ _
  · exact .listProgram _

end Invocation

namespace Libraries

variable {T : TempFiles} {lib : Libraries} {args : List String} {i : Invocation}
  {o : CompileOptions} {v v' : Volume} {outcome : Outcome}

theorem readOnly_perform (h : ∀ i o, lib.arguments args = some (.invoke i) →
    i.command ≠ .compile o) : ReadOnly (lib.perform (m := StateM Volume) args) := by
  unfold perform
  split
  · exact .pure _
  · exact .pure _
  · exact .pure _
  · rename_i i hread
    refine ReadOnly.bind (i.readOnly_perform _ (fun o => h i o hread) "") fun result => ?_
    obtain ⟨result, output⟩ := result
    cases result with
    | ok done => exact .pure _
    | error f => exact .pure _

theorem run_perform {result : Except Failure Unit} {output : String}
    (h : lib.arguments args = some (.invoke i))
    (hrun : (i.perform lib.toSourceReaders).runOn "" v = ((result, output), v')) :
    (lib.perform (m := StateM Volume) args).run v =
      (⟨output, match result with | .ok () => .done | .error f => .failed f⟩, v') := by
  unfold perform
  rw [CommandM.runOn] at hrun
  rw [h]
  dsimp only
  rw [StateT.run_bind, hrun]
  cases result <;> rfl

/-- Arguments that ask for a compilation lead to one that is done, or to a failure where none can be
done, and that changes no file. -/
theorem perform_cases (hT : T.Lawful) (hread : lib.arguments args = some (.invoke i))
    (hcommand : i.command = .compile o)
    (h : (lib.perform (m := StateM Volume) args).run v = (outcome, v')) :
    (outcome.ending = .done ∧ ∃ settings rules, i.Configured lib.toSourceReaders v settings ∧
      lib.RulesAt v o.input rules ∧ o.Compiles T settings rules v v') ∨
    (outcome.ending ≠ .done ∧ v' = v ∧ ¬ ∃ settings rules changed,
      i.Configured lib.toSourceReaders v settings ∧ lib.RulesAt v o.input rules ∧
        o.Compiles T settings rules v changed) := by
  rcases i.allOrNothing_perform hT lib.toSourceReaders hcommand v with
    ⟨output, changed, hrun, hmeant⟩ | ⟨f, output, hrun, hnot⟩
  · cases h.symm.trans (run_perform hread hrun)
    exact .inl ⟨rfl, hmeant⟩
  · cases h.symm.trans (run_perform hread hrun)
    exact .inr ⟨nofun, rfl, fun ⟨settings, rules, changed, h⟩ => hnot changed ⟨settings, rules, h⟩⟩

end Libraries

/-- A ruleset beside settings that take out the marks of labels, and a file that its program is to
replace. -/
def Volume.sample : Volume :=
  let settings := "[compiler]\nstrip_labels = true\n"
  let rules := "[[rules]]\nname = 'r'\nactions = []\n" ++
    "[[rules.conditions.all]]\nfact = 'x'\noperator = 'EQ'\nvalue = true\n"
  .sound ⟨.directory [("rulebyte.toml", .file (textBytes settings)),
    ("r.toml", .file (textBytes rules)), ("p", .file [1])], []⟩

end RuleMachine
