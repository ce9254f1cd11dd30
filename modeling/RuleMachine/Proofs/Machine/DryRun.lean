import RuleMachine.Proofs.Machine.Log
/-!
Dry runs. A dry run records what a real run does and lets only those scripts be called that the run
has defined before; a real run lets all be called. So the two are the same run up to the first call
of a script that was not defined, and there the dry run fails.
-/

set_option autoImplicit false

namespace RuleMachine

namespace CallLog

def Defines (log : CallLog) (name : String) : Prop :=
  ∃ definition, (HostCall.definition definition, none) ∈ log ∧ definition.name = name

def Allows (log : CallLog) : HostCall → Prop
  | .script call => log.Defines call.name
  | .action _ | .definition _ => True

/-- Every script was defined before it was called. -/
def DefinedFirst (log : CallLog) : Prop :=
  ∀ before entry after, log = before ++ entry :: after → Allows before entry.1

variable {log : CallLog} {call : HostCall} {answer : Option HostError}

theorem definedFirst_nil : DefinedFirst [] := by
  intro before entry after h
  cases before <;> cases h

theorem DefinedFirst.of_append {more : CallLog} (h : DefinedFirst (log ++ more)) :
    log.DefinedFirst := by
  intro before entry after hlog
  refine h before entry (after ++ more) ?_
  rw [hlog, List.append_assoc, List.cons_append]

theorem definedFirst_concat :
    DefinedFirst (log ++ [(call, answer)]) ↔ log.DefinedFirst ∧ log.Allows call := by
  constructor
  · intro h
    exact ⟨h.of_append, h log (call, answer) [] rfl⟩
  · intro h before entry after hlog
    obtain ⟨hfirst, hallows⟩ := h
    -- The entry is the last one, or it stands in the log before.
    rcases List.eq_nil_or_concat after with rfl | ⟨rest, last, rfl⟩
    · obtain ⟨rfl, hentry⟩ := List.append_inj' hlog rfl
      cases hentry
      exact hallows
    · rw [List.concat_eq_append, ← List.cons_append, ← List.append_assoc] at hlog
      exact hfirst before entry rest (List.append_inj' hlog rfl).1

theorem defines_concat {name : String} :
    Defines (log ++ [(call, none)]) name ↔
      (∃ definition, call = .definition definition ∧ definition.name = name) ∨
        log.Defines name := by
  constructor
  · intro h
    obtain ⟨definition, hmem, hname⟩ := h
    obtain hmem | hmem := List.mem_append.1 hmem
    · exact .inr ⟨definition, hmem, hname⟩
    · cases List.mem_singleton.1 hmem
      exact .inl ⟨definition, rfl, hname⟩
  · intro h
    obtain ⟨definition, rfl, hname⟩ | ⟨definition, hmem, hname⟩ := h
    · exact ⟨definition, List.mem_append_right _ (List.mem_singleton.2 rfl), hname⟩
    · exact ⟨definition, List.mem_append_left _ hmem, hname⟩

end CallLog

def Record.Tracks (record : Record) (log : CallLog) : Prop :=
  ∀ name, record.scripts.contains name = true ↔ log.Defines name

theorem Record.tracks_empty : ({} : Record).Tracks [] := by
  intro name
  constructor
  · intro h
    cases h
  · intro h
    obtain ⟨_, hmem, _⟩ := h
    cases hmem

namespace Host

variable {refused : Option String} {record : Record} {log : CallLog} {call : HostCall}

theorem exists_perform_console (call : HostCall) (text : String) :
    ∃ text', (Host.console true).perform call text = .ok () text' := by
  cases call <;> exact ⟨_, rfl⟩

theorem perform_recording_script (record : Record) (call : ScriptCall) :
    (Host.recording refused).perform (.script call) record =
      if record.scripts.contains call.name then
        .ok () { record with scriptCalls := record.scriptCalls ++ [(call.name, call.argument)] }
      else .error (.unknownScript call.name) record := by
  change (if !record.scripts.contains call.name then _ else _ : EStateM HostError Record Unit)
    record = _
  cases record.scripts.contains call.name <;> rfl

theorem exists_perform_recording (tracks : record.Tracks log) (allows : log.Allows call) :
    ∃ record', (Host.recording none).perform call record = .ok () record' ∧
      record'.Tracks (log ++ [(call, none)]) := by
  cases call with
  | action call =>
    refine ⟨{ record with actions := record.actions ++ [call] }, rfl, fun name => ?_⟩
    simp [CallLog.defines_concat, tracks name]
  | definition definition =>
    refine ⟨_, rfl, fun name => ?_⟩
    rw [NameTable.contains_insert, tracks name, CallLog.defines_concat]
    simp [eq_comm]
  | script call =>
    refine ⟨_, (perform_recording_script record call).trans (if_pos ?_), fun name => ?_⟩
    · exact (tracks call.name).2 allows
    · simp [CallLog.defines_concat, tracks name]

theorem perform_recording_of_unknown {call : ScriptCall} (tracks : record.Tracks log)
    (unknown : ¬ log.Defines call.name) :
    (Host.recording none).perform (.script call) record =
      .error (.unknownScript call.name) record :=
  (perform_recording_script record call).trans
    (if_neg fun known => unknown ((tracks call.name).1 known))

end Host

namespace Machine

variable {m : Machine} {n : Nat} {r : Registers} {text text' : String} {log log' : CallLog}
  {record : Record} {progress : Progress}

/-- A step of the real run is a step of the dry run, or it calls a script that was not defined and
the dry run fails. -/
theorem advance_dry
    (h : m.advance (Host.console true).logged r (text, log) = (progress, text', log'))
    (tracks : record.Tracks log) :
    (∃ record', record'.Tracks log' ∧ (log.DefinedFirst → log'.DefinedFirst) ∧
      m.advance (Host.recording none).logged r (record, log) = (progress, record', log')) ∨
    ∃ call next, ¬ log.Defines call.name ∧ progress = .running next ∧
      log' = log ++ [(.script call, none)] ∧
      m.advance (Host.recording none).logged r (record, log) =
        (.failed (r.fail (.host (.unknownScript call.name))), record,
          log ++ [(.script call, some (.unknownScript call.name))]) := by
  simp only [advance_eq_iff] at h ⊢
  cases h with
  | finished fetch => exact .inl ⟨record, tracks, id, .finished fetch⟩
  | exhausted fetch limited => exact .inl ⟨record, tracks, id, .exhausted fetch limited⟩
  | stuck fetch free intent => exact .inl ⟨record, tracks, id, .stuck fetch free intent⟩
  | silent fetch free intent => exact .inl ⟨record, tracks, id, .silent fetch free intent⟩
  | @granted i call next _ fetch free intent answer =>
    obtain ⟨text₁, hconsole⟩ := Host.exists_perform_console call text
    rw [Host.perform_logged_of_ok hconsole] at answer
    cases answer
    by_cases allows : log.Allows call
    · obtain ⟨record', hrecord, htracks⟩ := Host.exists_perform_recording tracks allows
      refine .inl ⟨record', htracks, fun h => CallLog.definedFirst_concat.2 ⟨h, allows⟩, ?_⟩
      exact .granted fetch free intent (Host.perform_logged_of_ok hrecord)
    · cases call with
      | action call => exact absurd trivial allows
      | definition definition => exact absurd trivial allows
      | script call =>
        have hrefused := Host.perform_recording_of_unknown tracks allows
        exact .inr ⟨call, _, allows, rfl, rfl,
          .refused fetch free intent (Host.perform_logged_of_error hrefused)⟩
  | @refused i call next e _ fetch free intent answer =>
    obtain ⟨text₁, hconsole⟩ := Host.exists_perform_console call text
    rw [Host.perform_logged_of_ok hconsole] at answer
    cases answer

theorem advanceUpTo_dry
    (h : m.advanceUpTo (Host.console true).logged n r (text, log) = (progress, text', log'))
    (tracks : record.Tracks log) (first : log.DefinedFirst) :
    (log'.DefinedFirst ∧ ∃ record',
      m.advanceUpTo (Host.recording none).logged n r (record, log) = (progress, record', log')) ∨
    ∃ k r₁ text₁ before call r₂ text₂ record', k < n ∧
      m.Steps (Host.console true).logged k r (text, log) r₁ (text₁, before) ∧
      before.DefinedFirst ∧ ¬ before.Defines call.name ∧
      m.advance (Host.console true).logged r₁ (text₁, before) =
        (.running r₂, text₂, before ++ [(.script call, none)]) ∧
      before ++ [(.script call, none)] <+: log' ∧
      m.advanceUpTo (Host.recording none).logged n r (record, log) =
        (.failed (r₁.fail (.host (.unknownScript call.name))), record',
          before ++ [(.script call, some (.unknownScript call.name))]) := by
  induction n generalizing r text log record with
  | zero =>
    cases h
    exact .inl ⟨first, record, rfl⟩
  | succ n ih =>
    obtain ⟨next, ⟨text₁, log₁⟩, hgo, rest⟩ | ⟨final, ends⟩ := advanceUpTo_succ_eq_iff.1 h
    · obtain ⟨record₁, tracks₁, hfirst, hdry⟩ | ⟨call, r₁, unknown, _, rfl, hdry⟩ :=
        advance_dry hgo tracks
      · obtain ⟨hlog, record', hrun⟩ |
          ⟨k, r₁, text₂, before, call, r₂, text₃, record', hk, hsteps, hbefore, hcall, hreal, hlog,
            hrun⟩ := ih rest tracks₁ (hfirst first)
        · exact .inl ⟨hlog, record', advanceUpTo_succ_eq_iff.2 (.inl ⟨_, _, hdry, hrun⟩)⟩
        · exact .inr ⟨k + 1, r₁, text₂, before, call, r₂, text₃, record', by omega,
            .succ hgo hsteps, hbefore, hcall, hreal, hlog,
            advanceUpTo_succ_eq_iff.2 (.inl ⟨_, _, hdry, hrun⟩)⟩
      · -- The real run goes on, and its log begins with the calls up to this one.
        exact .inr ⟨0, r, text, log, call, next, text₁, record, Nat.succ_pos n, .zero, first,
          unknown, hgo, log_prefix_of_advanceUpTo rest,
          advanceUpTo_succ_eq_iff.2 (.inr ⟨hdry, _, rfl⟩)⟩
    · obtain ⟨record₁, tracks₁, hfirst, hdry⟩ | ⟨call, next, _, rfl, _⟩ := advance_dry final tracks
      · exact .inl ⟨hfirst first, record₁, advanceUpTo_succ_eq_iff.2 (.inr ⟨hdry, ends⟩)⟩
      · -- A step that calls a script does not end the real run.
        obtain ⟨_, is⟩ := ends
        cases is

end Machine

/-- A dry run, which records, beside a real run, which prints to a writer that takes every line.
While the real run calls only scripts that it has defined before, both go through the same
registers to the same report or error and make the same calls. Otherwise, where the real run first
calls a script that was not defined, the dry run fails: after the same calls, and naming the place
and the rule that the call stands in. -/
theorem Program.dry_run_exact (p : Program) (facts : Facts) (settings : RunSettings)
    (written : String) (n : Nat) {progress : Progress} {text : String} {log : CallLog}
    (h : (p.machine facts settings).advanceUpTo (Host.console true).logged n {} (written, []) =
      (progress, text, log)) :
    (log.DefinedFirst → ∃ record,
      (p.machine facts settings).advanceUpTo (Host.recording none).logged n {} ({}, []) =
        (progress, record, log)) ∧
    (¬ log.DefinedFirst → ∃ k r text₁ before call next text₂ record, k < n ∧
      (p.machine facts settings).Steps (Host.console true).logged k {} (written, []) r
        (text₁, before) ∧
      before.DefinedFirst ∧ ¬ before.Defines call.name ∧
      (p.machine facts settings).advance (Host.console true).logged r (text₁, before) =
        (.running next, text₂, before ++ [(.script call, none)]) ∧
      before ++ [(.script call, none)] <+: log ∧
      (p.machine facts settings).advanceUpTo (Host.recording none).logged n {} ({}, []) =
        (.failed (r.fail (.host (.unknownScript call.name))), record,
          before ++ [(.script call, some (.unknownScript call.name))])) := by
  obtain ⟨hlog, hdry⟩ | hstop :=
    Machine.advanceUpTo_dry h Record.tracks_empty CallLog.definedFirst_nil
  · exact ⟨fun _ => hdry, fun hnot => absurd hlog hnot⟩
  · refine ⟨fun hlog => ?_, fun _ => hstop⟩
    obtain ⟨_, _, _, before, call, _, _, _, _, _, _, unknown, _, ⟨after, rfl⟩, _⟩ := hstop
    exact absurd (hlog before _ after (List.append_assoc _ _ _)) unknown

def Program.callAlone : Program := [⟨.scriptCall, [1, 0, 110, 1, 0, 120]⟩]

def Program.callDefined : Program := ⟨.scriptDef, [1, 0, 110, 0, 0, 0, 0, 1, 0, 98]⟩ :: callAlone

theorem Program.dry_run_callDefined : ∃ record,
    (callDefined.machine .empty {}).advanceUpTo (Host.recording none).logged 9 {} ({}, []) =
      (.finished { scripts := 1, instructions := 2 }, record,
        [(.definition ⟨none, "n", [], "b"⟩, none), (.script ⟨none, "n", "x"⟩, none)]) := by
  have hreal : (callDefined.machine .empty {}).advanceUpTo (Host.console true).logged 9 {}
      ("", []) = (.finished { scripts := 1, instructions := 2 },
        "[-] define script n()\n[-] script n(x)\n",
        [(.definition ⟨none, "n", [], "b"⟩, none), (.script ⟨none, "n", "x"⟩, none)]) := rfl
  have hdefinition : CallLog.DefinedFirst ([] ++ [(.definition ⟨none, "n", [], "b"⟩, none)]) :=
    CallLog.definedFirst_concat.2 ⟨CallLog.definedFirst_nil, trivial⟩
  have hdefines : CallLog.Defines [(.definition ⟨none, "n", [], "b"⟩, none)] "n" :=
    ⟨_, List.mem_singleton.2 rfl, rfl⟩
  have hlog : CallLog.DefinedFirst ([(.definition ⟨none, "n", [], "b"⟩, none)] ++
      [(.script ⟨none, "n", "x"⟩, none)]) :=
    CallLog.definedFirst_concat.2 ⟨hdefinition, hdefines⟩
  exact (dry_run_exact callDefined .empty {} "" 9 hreal).1 hlog

/-- A call of a script that nothing defines succeeds in a real run and fails in a dry run. -/
theorem Program.dry_run_differs :
    ((callAlone.machine .empty {}).run (Host.recording none) {}).1 =
      .failed ⟨.host (.unknownScript "n"), some 0, none⟩ ∧
    ((callAlone.machine .empty {}).run (Host.console true) "").1 =
      .finished { scripts := 1, instructions := 1 } ∧
    ((callAlone.machine .empty {}).run (Host.recording none) {}).1 ≠
      ((callAlone.machine .empty {}).run (Host.console true) "").1 := by
  refine ⟨rfl, rfl, ?_⟩
  decide

end RuleMachine
