import RuleMachine.Proofs.Compiler.Forward
import RuleMachine.Proofs.Compiler.Intents
import RuleMachine.Proofs.Machine.Log
/-!
Runs of compiled programs. Every instruction leads further on, so a run has no more instructions
than the program, and what it can fail for is up to the facts, the host and the limit on steps.
-/

set_option autoImplicit false

namespace RuleMachine

namespace RuntimeCause

/-- A fact is missing or of another kind, under the policy that makes this an error. -/
def OfFact (policy : FactPolicy) : RuntimeCause → Prop
  | .missingFact _ | .factTypeMismatch _ _ _ _ => policy = .strict
  | _ => False

/-- What a run of a compiled program of some length may fail for, with the calls it has made. -/
def Permitted (settings : RunSettings) (length : Nat) (log : CallLog) : RuntimeCause → Prop
  | .missingFact _ | .factTypeMismatch _ _ _ _ => settings.factPolicy = .strict
  | .host e => ∃ call, log.getLast? = some (call, some e)
  | .stepLimitExceeded limit => settings.maxSteps = some limit ∧ limit < length
  | .unknownOpcode _ _ | .decode _ | .jumpOutOfBounds _ _ | .invalidCount _ _ => False

theorem OfFact.permitted {settings : RunSettings} {cause : RuntimeCause} {length : Nat}
    {log : CallLog} (h : cause.OfFact settings.factPolicy) :
    cause.Permitted settings length log := by
  cases cause with
  | missingFact fact => exact h
  | factTypeMismatch fact opcode expected found => exact h
  | unknownOpcode byte offset => exact h
  | decode error => exact h
  | jumpOutOfBounds target length => exact h
  | invalidCount script count => exact h
  | stepLimitExceeded limit => exact h.elim
  | host error => exact h.elim

end RuntimeCause

theorem FactPolicy.unreadable_eq_error {policy : FactPolicy} {cause cause' : RuntimeCause}
    (h : policy.unreadable cause = .error cause') : policy = .strict ∧ cause = cause' := by
  cases policy with
  | lenient => cases h
  | strict =>
    cases h
    exact ⟨rfl, rfl⟩

theorem compareFact_eq_error {facts : Facts} {policy : FactPolicy} {fact operator : String}
    {literal : Scalar} {cause : RuntimeCause}
    (h : compareFact facts policy fact operator literal = .error cause) :
    cause.OfFact policy := by
  unfold compareFact at h
  split at h
  · cases h
  · split at h
    · cases h
    · split at h
      · obtain ⟨hp, rfl⟩ := FactPolicy.unreadable_eq_error h
        exact hp
      · split at h
        · cases h
        · obtain ⟨hp, rfl⟩ := FactPolicy.unreadable_eq_error h
          exact hp

namespace Machine

variable {m : Machine} {i : Instruction} {r : Registers} {cause : RuntimeCause} {intent : Intent}

theorem cause_of_built (h : i.Built) (hi : m.intent i r = .error cause) :
    cause.OfFact m.settings.factPolicy := by
  cases h with
  | ruleStart built =>
    rw [intent_of_ruleStart built] at hi
    cases hi
  | ruleEnd => cases hi
  | priority built =>
    rw [intent_of_priority built] at hi
    cases hi
  | scriptDefinition built =>
    rw [intent_of_scriptDefinition built] at hi
    cases hi
  | @comparison operator fact literal op i select built =>
    rw [intent_of_comparison select built] at hi
    cases hc : compareFact m.facts m.settings.factPolicy fact operator literal with
    | ok holds =>
      rw [hc] at hi
      cases hi
    | error e =>
      rw [hc] at hi
      cases hi
      exact compareFact_eq_error hc
  | mark built =>
    obtain ⟨_, _, rfl⟩ := Instruction.mark_eq_ok_iff.1 built
    rw [intent_of_label rfl] at hi
    cases hi
  | action built =>
    rw [intent_of_action built] at hi
    cases hi
  | scriptCall built =>
    rw [intent_of_scriptCall built] at hi
    cases hi

theorem intent_of_forward (hj : i.opcode.isJump = true)
    (hf : i.ForwardAt m.program.size r.address) (ha : r.address < m.program.size) :
    ∃ next, m.intent i r = .ok ⟨none, next⟩ ∧ r.address < next.address ∧
      next.address ≤ m.program.size := by
  obtain ⟨offset, target, ho, ht, hlt, hle⟩ := hf hj
  rw [intent_of_jump hj ho, land_eq_ok_iff.2 ⟨ht, hle⟩]
  split
  · exact ⟨_, rfl, hlt, hle⟩
  · exact ⟨_, rfl, Nat.lt_succ_self _, ha⟩

theorem cause_of_emitted (h : i.Emitted) (hf : i.ForwardAt m.program.size r.address)
    (ha : r.address < m.program.size) (hi : m.intent i r = .error cause) :
    cause.OfFact m.settings.factPolicy := by
  cases h with
  | built h => exact cause_of_built h hi
  | jump hj offset =>
    obtain ⟨_, hn, _⟩ := intent_of_forward hj hf ha
    rw [hn] at hi
    cases hi

theorem next_of_emitted (h : i.Emitted) (hf : i.ForwardAt m.program.size r.address)
    (ha : r.address < m.program.size) (hi : m.intent i r = .ok intent) :
    r.address < intent.next.address ∧ intent.next.address ≤ m.program.size := by
  cases h with
  | built h =>
    rw [next_address_of_not_jump h.isJump hi]
    exact ⟨Nat.lt_succ_self _, ha⟩
  | jump hj offset =>
    obtain ⟨next, hn, hlt, hle⟩ := intent_of_forward hj hf ha
    rw [hn] at hi
    cases hi
    exact ⟨hlt, hle⟩

end Machine

namespace Program

variable {p : Program} {facts : Facts} {settings : RunSettings} {σ : Type} {host : Host σ}

theorem advance_of_forward (he : p.Emitted) (hf : p.Forward) {r : Registers}
    {t t' : σ × CallLog} {progress : Progress} (hcount : r.report.instructions ≤ r.address)
    (h : (p.machine facts settings).advance host.logged r t = (progress, t')) :
    (∃ next, progress = .running next ∧ r.address < next.address ∧ next.address ≤ p.length ∧
      next.report.instructions = r.report.instructions + 1) ∨
    (∃ report, progress = .finished report) ∨
    (∃ e, progress = .failed e ∧ r.address < p.length ∧
      e.cause.Permitted settings p.length t'.2) := by
  have hmem : ∀ {i}, (p.machine facts settings).program[r.address]? = some i → i.Emitted ∧
      i.ForwardAt p.length r.address ∧ r.address < p.length := by
    intro i hi
    rw [machine_getElem?] at hi
    exact ⟨he i (List.mem_of_getElem? hi), hf _ i hi, (List.getElem?_eq_some_iff.1 hi).1⟩
  rw [Machine.advance_eq_iff] at h
  cases h with
  | finished fetch => exact .inr (.inl ⟨_, rfl⟩)
  | exhausted fetch limited =>
    obtain ⟨_, _, ha⟩ := hmem fetch
    obtain ⟨hmax, hle⟩ := Machine.limitReached_eq_some_iff.1 limited
    exact .inr (.inr ⟨_, rfl, ha, hmax, by omega⟩)
  | stuck fetch free intent =>
    obtain ⟨hi, hforward, ha⟩ := hmem fetch
    have hcause := Machine.cause_of_emitted hi hforward ha intent
    exact .inr (.inr ⟨_, rfl, ha, hcause.permitted⟩)
  | silent fetch free intent =>
    obtain ⟨hi, hforward, ha⟩ := hmem fetch
    obtain ⟨hlt, hle⟩ := Machine.next_of_emitted hi hforward ha intent
    exact .inl ⟨_, rfl, hlt, hle, rfl⟩
  | granted fetch free intent answer =>
    obtain ⟨hi, hforward, ha⟩ := hmem fetch
    obtain ⟨hlt, hle⟩ := Machine.next_of_emitted hi hforward ha intent
    exact .inl ⟨_, rfl, hlt, hle, rfl⟩
  | refused fetch free intent answer =>
    obtain ⟨_, _, ha⟩ := hmem fetch
    exact .inr (.inr ⟨_, rfl, ha, _, Host.log_of_refused answer⟩)

/-- A run of emitted instructions whose jumps lead forward ends with the program or before, and
fails for nothing but what is permitted. -/
theorem ends_of_forward (he : p.Emitted) (hf : p.Forward) (host : Host σ) (r : Registers)
    (t : σ × CallLog) (ha : r.address ≤ p.length) (hcount : r.report.instructions ≤ r.address) :
    ∃ n result t', (p.machine facts settings).Ends host.logged n r t result t' ∧
      r.address + n ≤ p.length ∧
      ∀ e, result = .error e → r.address + n < p.length ∧
        e.cause.Permitted settings p.length t'.2 := by
  -- What is left of the program gets shorter with every instruction.
  induction hd : p.length - r.address using Nat.strongRecOn generalizing r t with
  | ind d ih =>
    cases hadvance : (p.machine facts settings).advance host.logged r t with
    | mk progress t' =>
      obtain hgo | hstop | hfail := advance_of_forward he hf hcount hadvance
      · obtain ⟨next, rfl, hlt, hle, hn⟩ := hgo
        obtain ⟨n, result, t'', hends, hlength, herror⟩ :=
          ih (p.length - next.address) (by omega) next t' hle (by omega) rfl
        refine ⟨n + 1, result, t'', .succ hadvance hends, by omega, fun e h => ?_⟩
        obtain ⟨hlt', hpermitted⟩ := herror e h
        exact ⟨by omega, hpermitted⟩
      · obtain ⟨report, rfl⟩ := hstop
        exact ⟨0, .ok report, t', .last hadvance rfl, ha, fun e h => by cases h⟩
      · obtain ⟨e, rfl, hlt, hpermitted⟩ := hfail
        refine ⟨0, .error e, t', .last hadvance rfl, ha, fun e' h => ?_⟩
        cases h
        exact ⟨hlt, hpermitted⟩

end Program

/-- A compiled program, also after it has been in a file, runs to an end within its length on any
facts and any host and under any settings. It fails only over a fact under a strict policy, over a
refusal that is the last call, or over a limit that is less than its length. -/
theorem Compiler.runs_safely {c : Compiler} {rules : Ruleset} {p : Program}
    (h : (c.compile rules).1 = .ok p) :
    Program.load p.bytes = .ok p ∧
    ∀ (facts : Facts) (settings : RunSettings) {σ : Type} (host : Host σ) (state : σ),
      ∃ n result final log,
        (p.machine facts settings).Ends host.logged n {} (state, []) result (final, log) ∧
        n ≤ p.length ∧
        ∀ e, result = .error e → n < p.length ∧ e.cause.Permitted settings p.length log := by
  have hemitted := Compiler.emitted_of_compile h
  refine ⟨Program.load_bytes hemitted.exact, fun facts settings σ host state => ?_⟩
  obtain ⟨n, result, t, hends, hlength, herror⟩ := Program.ends_of_forward hemitted
    (Compiler.forward_of_compile h) host {} (state, []) (Nat.zero_le _) (Nat.le_refl _)
  rw [Nat.zero_add] at hlength
  refine ⟨n, result, t.1, t.2, hends, hlength, fun e he => ?_⟩
  obtain ⟨hlt, hpermitted⟩ := herror e he
  rw [Nat.zero_add] at hlt
  exact ⟨hlt, hpermitted⟩

theorem Compiler.runs_safely_sample :
    ∃ n result final log, (Program.sample.machine .empty ⟨.strict, some 4⟩).Ends
      Host.counting.logged n {} (0, []) result (final, log) ∧ n ≤ Program.sample.length ∧
      ∀ e, result = .error e → n < Program.sample.length ∧
        e.cause.Permitted ⟨.strict, some 4⟩ Program.sample.length log :=
  (runs_safely Ruleset.compile_sample).2 .empty ⟨.strict, some 4⟩ Host.counting 0

end RuleMachine
