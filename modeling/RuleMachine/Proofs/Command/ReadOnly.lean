import RuleMachine.Command.Perform

set_option autoImplicit false

namespace RuleMachine

/-- Work that leaves every file as it is. -/
def ReadOnly {α : Type} (work : StateM Volume α) : Prop := ∀ v, (work.run v).2 = v

namespace ReadOnly

variable {α β ε ε' : Type}

theorem exists_run {work : StateM Volume α} (h : ReadOnly work) (v : Volume) :
    ∃ a, work.run v = (a, v) := ⟨(work.run v).1, Prod.ext rfl (h v)⟩

theorem pure (a : α) : ReadOnly (Pure.pure a) := fun _ => rfl

theorem bind {work : StateM Volume α} {next : α → StateM Volume β} (h : ReadOnly work)
    (hnext : ∀ a, ReadOnly (next a)) : ReadOnly (work >>= next) := by
  intro v
  change ((next (work.run v).1).run (work.run v).2).2 = v
  rw [hnext, h]

theorem bindExcept {work : ExceptT ε (StateM Volume) α}
    {next : α → ExceptT ε (StateM Volume) β} (h : ReadOnly work.run)
    (hnext : ∀ a, ReadOnly (next a).run) : ReadOnly (work >>= next).run := by
  rw [ExceptT.run_bind]
  refine h.bind fun result => ?_
  cases result with
  | ok a => exact hnext a
  | error e => exact pure _

theorem lift (result : Except ε α) :
    ReadOnly (liftM result : ExceptT ε (StateM Volume) α).run := pure result

theorem adapt {work : ExceptT ε (StateM Volume) α} (f : ε → ε') (h : ReadOnly work.run) :
    ReadOnly (work.adapt f).run := h.bind fun _ => pure _

variable [TempFiles]

theorem readBytes (path : String) :
    ReadOnly (RuleMachine.readBytes (m := StateM Volume) path).run := fun _ => rfl

theorem readText (path : String) :
    ReadOnly (RuleMachine.readText (m := StateM Volume) path).run :=
  (readBytes path).bindExcept fun _ => lift _

theorem readSource (path : String) :
    ReadOnly (RuleMachine.readSource (m := StateM Volume) path).run :=
  (lift _).bindExcept fun _ => ((readText path).adapt _).bindExcept fun _ => pure _

theorem loadFacts (lib : SourceReaders) (path : String) :
    ReadOnly (lib.loadFacts (m := StateM Volume) path).run :=
  (readSource path).bindExcept fun _ => lift _

theorem loadProgram (path : String) :
    ReadOnly (RuleMachine.loadProgram (m := StateM Volume) path).run := by
  refine ((readBytes path).adapt _).bindExcept fun bytes => ?_
  split
  · exact pure _
  · exact pure _

end ReadOnly

/-- What a command gives and has written, and the files after it. -/
def CommandM.runOn {α : Type} (work : CommandM (StateM Volume) α) (output : String)
    (v : Volume) : (Except Failure α × String) × Volume := (work.run.run output).run v

namespace CommandM

variable {α β ε : Type} {v v' : Volume} {output output' : String}

theorem runOn_bind_of_ok {work : CommandM (StateM Volume) α}
    {next : α → CommandM (StateM Volume) β} {a : α}
    (h : work.runOn output v = ((.ok a, output'), v')) :
    (work >>= next).runOn output v = (next a).runOn output' v' := by
  rw [runOn] at h
  rw [runOn, ExceptT.run_bind, StateT.run_bind, StateT.run_bind, h]
  rfl

theorem runOn_bind_of_error {work : CommandM (StateM Volume) α}
    {next : α → CommandM (StateM Volume) β} {f : Failure}
    (h : work.runOn output v = ((.error f, output'), v')) :
    (work >>= next).runOn output v = ((.error f, output'), v') := by
  rw [runOn] at h
  rw [runOn, ExceptT.run_bind, StateT.run_bind, StateT.run_bind, h]
  rfl

theorem runOn_lift {work : StateM Volume α} {a : α} (h : work.run v = (a, v')) :
    runOn (liftM work : CommandM (StateM Volume) α) output v = ((.ok a, output), v') := by
  change ((Except.ok (work.run v).1, output), (work.run v).2) = _
  rw [h]

theorem runOn_inContext {work : ExceptT ε (StateM Volume) α} {result : Except ε α}
    {context : String} {causes : ε → List String} (h : work.run.run v = (result, v')) :
    (inContext context causes work).runOn output v =
      ((result.mapError fun e => ⟨context, causes e⟩, output), v') := by
  refine (runOn_bind_of_ok (runOn_lift h)).trans ?_
  cases result <;> rfl

theorem exists_runOn_inContext {work : ExceptT ε (StateM Volume) α} (h : ReadOnly work.run)
    (context : String) (causes : ε → List String) (output : String) (v : Volume) :
    ∃ result, (inContext context causes work).runOn output v = ((result, output), v) := by
  obtain ⟨found, hrun⟩ := h.exists_run v
  exact ⟨_, runOn_inContext hrun⟩

end CommandM

/-- A command that leaves every file as it is, whatever has been written before. -/
def CommandM.ReadOnly {α : Type} (work : CommandM (StateM Volume) α) : Prop :=
  ∀ output v, (work.runOn output v).2 = v

namespace CommandM.ReadOnly

variable {α β ε : Type}

theorem exists_runOn {work : CommandM (StateM Volume) α} (h : ReadOnly work)
    (output : String) (v : Volume) :
    ∃ result output', work.runOn output v = ((result, output'), v) :=
  ⟨(work.runOn output v).1.1, (work.runOn output v).1.2, Prod.ext rfl (h output v)⟩

theorem pure (a : α) : ReadOnly (Pure.pure a) := fun _ _ => rfl

theorem throw (f : Failure) : ReadOnly (throw f : CommandM (StateM Volume) α) :=
  fun _ _ => rfl

theorem write (text : String) : ReadOnly (CommandM.write text) := fun _ _ => rfl

theorem bind {work : CommandM (StateM Volume) α}
    {next : α → CommandM (StateM Volume) β} (h : ReadOnly work)
    (hnext : ∀ a, ReadOnly (next a)) : ReadOnly (work >>= next) := by
  intro output v
  obtain ⟨result, output', hrun⟩ := h.exists_runOn output v
  cases result with
  | ok a => rw [runOn_bind_of_ok hrun, hnext]
  | error f => rw [runOn_bind_of_error hrun]

theorem inContext {work : ExceptT ε (StateM Volume) α} (h : RuleMachine.ReadOnly work.run)
    (context : String) (causes : ε → List String) :
    ReadOnly (CommandM.inContext context causes work) := by
  intro output v
  obtain ⟨result, hrun⟩ := exists_runOn_inContext h context causes output v
  rw [hrun]

theorem report (progress : Progress) :
    ReadOnly (RunOptions.report (m := StateM Volume) progress) := by
  cases progress with
  | finished report => exact pure _
  | failed e => exact throw _
  | running r => exact throw _

variable [TempFiles]

theorem loadFacts (lib : SourceReaders) (o : RunOptions) :
    ReadOnly (o.loadFacts (m := StateM Volume) lib) := by
  unfold RunOptions.loadFacts
  dsimp only
  split
  · refine (inContext (.loadFacts lib _) _ _).bind fun facts => ?_
    split
    · exact pure _
    · exact throw _
  · refine (pure _).bind fun facts => ?_
    split
    · exact pure _
    · exact throw _

theorem performRun (lib : SourceReaders) (o : RunOptions) (settings : Settings) :
    ReadOnly (o.perform (m := StateM Volume) lib settings) := by
  refine bind (inContext (.loadProgram _) _ _) fun program => ?_
  refine (loadFacts lib o).bind fun facts => ?_
  dsimp only
  split
  · exact (report _).bind fun _ => (write _).bind fun _ => write _
  · exact (write _).bind fun _ => (report _).bind fun _ => write _

theorem listProgram (path : String) :
    ReadOnly (RuleMachine.listProgram (m := StateM Volume) path) :=
  (inContext (.loadProgram _) _ _).bind fun _ => write _

end CommandM.ReadOnly

end RuleMachine
