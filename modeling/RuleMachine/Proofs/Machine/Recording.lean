import RuleMachine.Proofs.Machine.DryRun
import RuleMachine.Proofs.Machine.Events

set_option autoImplicit false

namespace RuleMachine

namespace Event

variable {before rest : List Event} {e : Event} {pending : Option String}

theorem ruleAfter_concat : ruleAfter (before ++ [e]) = e.boundary?.getD (ruleAfter before) := by
  unfold ruleAfter
  cases h : e.boundary? <;> simp [List.filterMap_append, h]

@[simp]
theorem opensWithEffect_enters {rule : String} :
    opensWithEffect (enters rule :: rest) = false := rfl

@[simp]
theorem opensWithEffect_leaves : opensWithEffect (leaves :: rest) = false := rfl

@[simp]
theorem opensWithEffect_defines {name body : String} {params : List String} :
    opensWithEffect (defines name params body :: rest) = opensWithEffect rest := by
  simp [opensWithEffect, boundary?, isEffect]

theorem opensWithEffect_effect (h : e.isEffect = true) : opensWithEffect (e :: rest) = true := by
  cases e <;> cases h <;> simp [opensWithEffect, boundary?, isEffect]

def firedFrom (pending : Option String) (events : List Event) : List String :=
  (if opensWithEffect events then pending.toList else []) ++ firedRules events

theorem firedFrom_none (events : List Event) : firedFrom none events = firedRules events := by
  simp [firedFrom]

theorem firedFrom_enters {rule : String} :
    firedFrom pending (enters rule :: rest) = firedFrom (some rule) rest := by
  cases h : opensWithEffect rest <;> simp [firedFrom, firedRules, h]

theorem firedFrom_leaves : firedFrom pending (leaves :: rest) = firedFrom none rest := by
  simp [firedFrom, firedRules]

theorem firedFrom_effect (h : e.isEffect = true) :
    firedFrom pending (e :: rest) = pending.toList ++ firedFrom none rest := by
  have hrest : firedRules (e :: rest) = firedRules rest := by cases e <;> cases h <;> rfl
  rw [firedFrom, opensWithEffect_effect h, hrest, firedFrom_none, if_pos rfl]

theorem firedFrom_defines {name body : String} {params : List String} :
    firedFrom pending (defines name params body :: rest) = firedFrom pending rest := by
  simp [firedFrom, firedRules]

end Event

theorem Record.extend_nil (record : Record) (before : List Event) :
    record.extend before [] = record := by
  simp [Record.extend, Event.actionsAfter, NameTable.insertAll]

def Record.note (record : Record) : HostCall → Record
  | .action call => { record with actions := record.actions ++ [call] }
  | .definition d => { record with scripts := record.scripts.insert d.name (d.params, d.body) }
  | .script call =>
    { record with scriptCalls := record.scriptCalls ++ [(call.name, call.argument)] }

theorem Host.perform_recording (refused : Option String) (record : Record) (call : HostCall) :
    (Host.recording refused).perform call record = .ok () (record.note call) ∨
      ∃ e, (Host.recording refused).perform call record = .error e record := by
  cases call with
  | action call =>
    by_cases h : refused = some call.kind
    · refine .inr ⟨.failed s!"action '{call.kind}' rejected", ?_⟩
      simp only [Host.perform, Host.recording, if_pos h]
      rfl
    · refine .inl ?_
      simp only [Host.perform, Host.recording, if_neg h]
      rfl
  | definition d => exact .inl rfl
  | script call =>
    rw [perform_recording_script]
    by_cases h : record.scripts.contains call.name = true
    · exact .inl (if_pos h)
    · exact .inr ⟨_, if_neg h⟩

/-- The registers and the record count the same. -/
structure Registers.Tallies (r : Registers) (record : Record) : Prop where
  actions : r.report.actions = record.actions.length
  scripts : r.report.scripts = record.scriptCalls.length

namespace Registers.Enacts

variable {r next : Registers} {record : Record} {before rest : List Event} {event? : Option Event}
  {call? : Option HostCall}

theorem rule_eq (h : r.Enacts event? ⟨call?, next⟩) (hrule : r.rule = Event.ruleAfter before) :
    next.rule = Event.ruleAfter (before ++ event?.toList) := by
  cases h with
  | nothing alike => simp [alike.rule, hrule]
  | enters inside fresh report => simp [inside, Event.ruleAfter_concat, Event.boundary?]
  | leaves outside fresh report => simp [outside, Event.ruleAfter_concat, Event.boundary?]
  | acts rule fired firedRules actions scripts =>
    simp [rule, hrule, Event.ruleAfter_concat, Event.boundary?]
  | defines alike => simp [alike.rule, hrule, Event.ruleAfter_concat, Event.boundary?]
  | calls rule fired firedRules actions scripts =>
    simp [rule, hrule, Event.ruleAfter_concat, Event.boundary?]

theorem tallies (h : r.Enacts event? ⟨call?, next⟩) (tallies : r.Tallies record) :
    next.Tallies (call?.elim record record.note) := by
  obtain ⟨hactions, hscripts⟩ := tallies
  cases h with
  | nothing alike =>
    exact ⟨alike.report.actions.trans hactions, alike.report.scripts.trans hscripts⟩
  | enters inside fresh report =>
    exact ⟨report.actions.trans hactions, report.scripts.trans hscripts⟩
  | leaves outside fresh report =>
    exact ⟨report.actions.trans hactions, report.scripts.trans hscripts⟩
  | acts rule fired firedRules actions scripts =>
    exact ⟨by simp [actions, hactions, Record.note], by simp [scripts, hscripts, Record.note]⟩
  | defines alike =>
    exact ⟨alike.report.actions.trans hactions, alike.report.scripts.trans hscripts⟩
  | calls rule fired firedRules actions scripts =>
    exact ⟨by simp [actions, hactions, Record.note], by simp [scripts, hscripts, Record.note]⟩

theorem extend_eq (h : r.Enacts event? ⟨call?, next⟩) (hrule : r.rule = Event.ruleAfter before) :
    record.extend before (event?.toList ++ rest) =
      (call?.elim record record.note).extend (before ++ event?.toList) rest := by
  cases h with
  | nothing alike => simp
  | enters inside fresh report => rfl
  | leaves outside fresh report => rfl
  | acts rule fired firedRules actions scripts =>
    simp [Record.extend, Record.note, Event.actionsAfter, List.filterMap_cons, Event.definition?,
      Event.call?, hrule]
  | defines alike => rfl
  | calls rule fired firedRules actions scripts =>
    simp [Record.extend, Record.note, Event.actionsAfter, List.filterMap_cons, Event.definition?,
      Event.call?]

theorem firedRules_of_effect {e : Event} (effect : e.isEffect = true)
    (fired : next.ruleFired = true)
    (firedRules : next.report.firedRules = r.report.firedRules ++ r.pending?.toList) :
    r.report.firedRules ++ Event.firedFrom r.pending? (e :: rest) =
      next.report.firedRules ++ Event.firedFrom next.pending? rest := by
  have hpending : next.pending? = none := if_pos fired
  rw [Event.firedFrom_effect effect, firedRules, hpending, List.append_assoc]

theorem firedRules_eq (h : r.Enacts event? ⟨call?, next⟩) :
    r.report.firedRules ++ Event.firedFrom r.pending? (event?.toList ++ rest) =
      next.report.firedRules ++ Event.firedFrom next.pending? rest := by
  cases h with
  | nothing alike => simp [alike.report.firedRules, pending?, alike.ruleFired, alike.rule]
  | enters inside fresh report =>
    simp [report.firedRules, pending?, fresh, inside, Event.firedFrom_enters]
  | leaves outside fresh report =>
    simp [report.firedRules, pending?, fresh, outside, Event.firedFrom_leaves]
  | acts rule fired firedRules actions scripts =>
    exact firedRules_of_effect rfl fired firedRules
  | defines alike =>
    simp [alike.report.firedRules, pending?, alike.ruleFired, alike.rule, Event.firedFrom_defines]
  | calls rule fired firedRules actions scripts =>
    exact firedRules_of_effect rfl fired firedRules

end Registers.Enacts

namespace Machine

section

variable {σ : Type} {m : Machine} {host : Host σ} {i : Instruction} {n : Nat} {r next : Registers}
  {s s' : σ} {progress : Progress}

theorem events_of_running (fetch : m.program[r.address]? = some i)
    (h : m.advance host r s = (.running next, s')) :
    m.events host (n + 1) r s = i.event?.toList ++ m.events host n next s' := by
  simp only [events, completed, fetch, h, List.filterMap_cons]
  cases i.event? <;> rfl

theorem events_of_ended {result : Except RuntimeError Report}
    (h : m.advance host r s = (progress, s')) (is : progress.result? = some result) :
    m.events host (n + 1) r s = [] := by
  unfold events completed
  rw [h]
  cases progress with
  | running next => cases is
  | finished report => cases m.program[r.address]? <;> rfl
  | failed e => cases m.program[r.address]? <;> rfl

end

variable {m : Machine} {refused : Option String} {n : Nat} {r next : Registers}
  {record record' : Record} {progress : Progress} {before : List Event}

theorem enacts_of_advance
    (h : m.advance (Host.recording refused) r record = (.running next, record')) :
    ∃ i call?, m.program[r.address]? = some i ∧ r.Enacts i.event? ⟨call?, next⟩ ∧
      record' = call?.elim record record.note := by
  rw [advance_eq_iff] at h
  cases h with
  | silent fetch free intent =>
    exact ⟨_, none, fetch, (enacts_of_intent intent).counted _, rfl⟩
  | @granted i call _ _ fetch free intent answer =>
    refine ⟨i, some call, fetch, (enacts_of_intent intent).counted _, ?_⟩
    obtain hok | ⟨e, herror⟩ := Host.perform_recording refused record call
    · rw [hok] at answer
      cases answer
      rfl
    · rw [herror] at answer
      cases answer

theorem record_of_ended {result : Except RuntimeError Report}
    (h : m.advance (Host.recording refused) r record = (progress, record'))
    (is : progress.result? = some result) :
    record' = record ∧ ∀ report, progress = .finished report → report = r.report := by
  rw [advance_eq_iff] at h
  cases h with
  | finished fetch =>
    refine ⟨rfl, fun report h => ?_⟩
    cases h
    rfl
  | exhausted fetch limited => exact ⟨rfl, nofun⟩
  | stuck fetch free intent => exact ⟨rfl, nofun⟩
  | silent fetch free intent => cases is
  | granted fetch free intent answer => cases is
  | @refused i call _ _ _ fetch free intent answer =>
    refine ⟨?_, nofun⟩
    obtain hok | ⟨e, herror⟩ := Host.perform_recording refused record call
    · rw [hok] at answer
      cases answer
    · rw [herror] at answer
      cases answer
      rfl

theorem record_of_advanceUpTo (before : List Event)
    (h : m.advanceUpTo (Host.recording refused) n r record = (progress, record'))
    (hrule : r.rule = Event.ruleAfter before) (htallies : r.Tallies record) :
    record' = record.extend before (m.events (Host.recording refused) n r record) ∧
      ∀ report, progress = .finished report →
        report.actions = record'.actions.length ∧ report.scripts = record'.scriptCalls.length ∧
        report.firedRules = r.report.firedRules ++
          Event.firedFrom r.pending? (m.events (Host.recording refused) n r record) := by
  induction n generalizing r record before with
  | zero =>
    cases h
    exact ⟨(Record.extend_nil _ before).symm, nofun⟩
  | succ n ih =>
    obtain ⟨next, record₁, first, rest⟩ | ⟨final, result, is⟩ := advanceUpTo_succ_eq_iff.1 h
    · obtain ⟨i, call?, fetch, henacts, rfl⟩ := enacts_of_advance first
      rw [events_of_running fetch first, henacts.extend_eq hrule, henacts.firedRules_eq]
      exact ih _ rest (henacts.rule_eq hrule) (henacts.tallies htallies)
    · obtain ⟨rfl, hreport⟩ := record_of_ended final is
      rw [events_of_ended final is]
      refine ⟨(record'.extend_nil before).symm, fun report h => ?_⟩
      obtain rfl := hreport report h
      exact ⟨htallies.actions, htallies.scripts, (List.append_nil _).symm⟩

end Machine

/-- A run on a record that is new comes to hold the calls of the instructions that it completes and
no others, in order, whether it goes on, ends or fails. An action stands under the rule that was
begun last, if none has ended since. When the run comes to its end, its report counts the recorded
actions and calls of scripts, and the rules that fired are those beginnings of rules that such a
call follows before the next rule begins or ends. -/
theorem Program.record_exact (p : Program) (facts : Facts) (settings : RunSettings)
    (refused : Option String) (n : Nat) {progress : Progress} {record : Record}
    (h : (p.machine facts settings).advanceUpTo (Host.recording refused) n {} {} =
      (progress, record)) :
    record =
        Record.extend {} [] ((p.machine facts settings).events (Host.recording refused) n {} {}) ∧
      ∀ report, progress = .finished report →
        report.actions = record.actions.length ∧ report.scripts = record.scriptCalls.length ∧
        report.firedRules = Event.firedRules
          ((p.machine facts settings).events (Host.recording refused) n {} {}) := by
  obtain ⟨hrecord, hreport⟩ := Machine.record_of_advanceUpTo [] h rfl ⟨rfl, rfl⟩
  refine ⟨hrecord, fun report hfinished => ?_⟩
  obtain ⟨hactions, hscripts, hfired⟩ := hreport report hfinished
  refine ⟨hactions, hscripts, hfired.trans ?_⟩
  exact Event.firedFrom_none _

def Program.unevenRules : Program :=
  [⟨.execAction, [1, 0, 97, 1, 0, 98, 1, 0, 99]⟩, ⟨.ruleStart, [1, 0, 114]⟩,
    ⟨.execAction, [1, 0, 97, 1, 0, 98, 1, 0, 100]⟩, ⟨.execAction, [1, 0, 97, 1, 0, 98, 1, 0, 101]⟩,
    ⟨.ruleStart, [1, 0, 115]⟩, .ruleEnd]

theorem Program.record_exact_unevenRules : ∃ report record,
    (unevenRules.machine .empty {}).advanceUpTo (Host.recording none) 9 {} {} =
      (.finished report, record) ∧
    record.actions = [⟨none, "a", "b", "c"⟩, ⟨some "r", "a", "b", "d"⟩, ⟨some "r", "a", "b", "e"⟩] ∧
    report.actions = record.actions.length ∧ report.firedRules = ["r"] := by
  obtain ⟨report, record, hrun⟩ : ∃ report record,
      (unevenRules.machine .empty {}).advanceUpTo (Host.recording none) 9 {} {} =
        (.finished report, record) := ⟨_, _, rfl⟩
  have hevents : (unevenRules.machine .empty {}).events (Host.recording none) 9 {} {} =
      [.acts "a" "b" "c", .enters "r", .acts "a" "b" "d", .acts "a" "b" "e", .enters "s",
        .leaves] := rfl
  obtain ⟨hrecord, hreport⟩ := record_exact unevenRules .empty {} none 9 hrun
  obtain ⟨hactions, _, hfired⟩ := hreport report rfl
  rw [hevents] at hrecord hfired
  refine ⟨report, record, hrun, ?_, hactions, hfired⟩
  rw [hrecord]
  rfl

end RuleMachine
