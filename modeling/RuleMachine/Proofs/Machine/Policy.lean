import RuleMachine.Proofs.Machine.Causes
import RuleMachine.Proofs.Machine.Log

set_option autoImplicit false

namespace RuleMachine

section

variable {α β : Type}

/-- The second decoding does what the first does, but where the first fails over a fact. -/
def Decode.Relaxes (d d' : Decode α) : Prop :=
  ∀ c, d' c = d c ∨ ∃ cause c', d c = .error cause c' ∧ cause.OverFact

namespace Decode

theorem Relaxes.refl (d : Decode α) : Relaxes d d := fun _ => .inl rfl

theorem Relaxes.bind {d d' : Decode α} {next next' : α → Decode β} (hd : Relaxes d d')
    (hnext : ∀ a, Relaxes (next a) (next' a)) : Relaxes (d >>= next) (d' >>= next') := by
  intro c
  change EStateM.bind d' next' c = EStateM.bind d next c ∨
    ∃ cause c', EStateM.bind d next c = .error cause c' ∧ cause.OverFact
  unfold EStateM.bind
  obtain hsame | ⟨cause, c', hfail, hfact⟩ := hd c
  · rw [hsame]
    cases d c with
    | ok a c₁ => exact hnext a c₁
    | error e c₁ => exact .inl rfl
  · rw [hfail]
    exact .inr ⟨cause, c', rfl, hfact⟩

theorem Relaxes.decode {d d' : Decode α} (h : Relaxes d d') (i : Instruction) :
    i.decode d' = i.decode d ∨ ∃ cause, i.decode d = .error cause ∧ cause.OverFact := by
  unfold Instruction.decode
  obtain hsame | ⟨cause, c, hfail, hfact⟩ := h (Cursor.start i.operands)
  · rw [hsame]
    exact .inl rfl
  · rw [hfail]
    exact .inr ⟨cause, rfl, hfact⟩

end Decode

end

namespace Machine

def lenient (m : Machine) : Machine := { m with settings.factPolicy := .lenient }

open Decode

variable {σ : Type} {m : Machine} {host : Host σ} {i : Instruction} {n : Nat}
  {r r' : Registers} {s s' : σ} {result : Except RuntimeError Report}

theorem relaxes_unreadable (m : Machine) (cause : RuntimeCause) (h : cause.OverFact) :
    Relaxes (m.unreadable cause) (m.lenient.unreadable cause) := by
  unfold unreadable lenient
  cases m.settings.factPolicy with
  | lenient => exact Relaxes.refl _
  | strict => exact fun c => .inr ⟨cause, c, rfl, h⟩

theorem relaxes_compareValue (m : Machine) (op : Opcode) (kind : ScalarKind) (fact : String)
    (value : Scalar) :
    Relaxes (m.compareValue op kind fact value) (m.lenient.compareValue op kind fact value) := by
  have hmismatch := m.relaxes_unreadable (.factTypeMismatch fact op kind value.kind) trivial
  unfold compareValue
  cases kind with
  | number =>
    refine (Relaxes.refl _).bind fun operand => ?_
    cases value.asSingle? with
    | some x => exact Relaxes.refl _
    | none => exact hmismatch
  | string =>
    refine (Relaxes.refl _).bind fun operand => ?_
    cases value.asString? with
    | some s => exact Relaxes.refl _
    | none => exact hmismatch
  | bool =>
    refine (Relaxes.refl _).bind fun operand => ?_
    cases value.asBool? with
    | some b => exact Relaxes.refl _
    | none => exact hmismatch

theorem relaxes_compare (m : Machine) (op : Opcode) (kind : ScalarKind) :
    Relaxes (m.compare op kind) (m.lenient.compare op kind) := by
  refine (Relaxes.refl _).bind fun fact => ?_
  have hfacts : m.lenient.facts = m.facts := rfl
  rw [hfacts]
  cases m.facts.find? fact with
  | none =>
    exact (m.relaxes_unreadable (.missingFact fact) trivial).bind fun _ => Relaxes.refl _
  | some value => exact (m.relaxes_compareValue op kind fact value).bind fun _ => Relaxes.refl _

/-- An instruction asks for the same under the lenient policy, unless it fails over a fact. -/
theorem intent_lenient (m : Machine) (i : Instruction) (r : Registers) :
    m.lenient.intent i r = m.intent i r ∨
      ∃ cause, m.intent i r = .error cause ∧ cause.OverFact := by
  cases hkind : i.opcode.comparisonKind? with
  | none => exact .inl (intent_of_comparisonKind?_eq_none hkind m.facts .lenient)
  | some kind =>
    rw [intent_of_comparisonKind? hkind, intent_of_comparisonKind? hkind, test, test]
    obtain hsame | ⟨cause, hfail, hfact⟩ := (m.relaxes_compare i.opcode kind).decode i
    · rw [hsame]
      exact .inl rfl
    · rw [hfail]
      exact .inr ⟨cause, rfl, hfact⟩

/-- A step is the same under the lenient policy, unless it fails over a fact; then the host is not
called. -/
theorem advance_lenient (m : Machine) (host : Host σ) (r : Registers) (s : σ) :
    m.lenient.advance host r s = m.advance host r s ∨
      ∃ cause, m.advance host r s = (.failed (r.fail cause), s) ∧ cause.OverFact := by
  cases hfetch : m.program[r.address]? with
  | none =>
    refine .inl (advance_congr rfl rfl fun i hi => ?_)
    rw [hfetch] at hi
    cases hi
  | some i =>
    obtain hsame | ⟨cause, hfail, hfact⟩ := m.intent_lenient i r
    · refine .inl (advance_congr rfl rfl fun j hj _ => ?_)
      obtain rfl := Option.some.inj (hfetch.symm.trans hj)
      exact hsame
    · cases hlimit : m.limitReached r with
      | none => exact .inr ⟨cause, advance_eq_iff.2 (.stuck hfetch hlimit hfail), hfact⟩
      | some limit =>
        refine .inl (advance_congr rfl rfl fun _ _ free => ?_)
        rw [hlimit] at free
        cases free

theorem Steps.lenient (h : m.Steps host n r s r' s') : m.lenient.Steps host n r s r' s' := by
  induction h with
  | zero => exact .zero
  | @succ n r r₁ r₂ s s₁ s₂ first rest ih =>
    obtain hsame | ⟨cause, hfail, _⟩ := m.advance_lenient host r s
    · exact .succ (hsame.trans first) ih
    · cases (Prod.mk.inj (hfail.symm.trans first)).1

theorem Ends.lenient (h : m.Ends host n r s result s')
    (hfact : ∀ e, result = .error e → ¬ e.cause.OverFact) :
    m.lenient.Ends host n r s result s' := by
  obtain ⟨r₁, s₁, progress, hsteps, final, is⟩ := ends_iff_steps.1 h
  refine ends_iff_steps.2 ⟨r₁, s₁, progress, hsteps.lenient, ?_, is⟩
  obtain hsame | ⟨cause, hfail, hover⟩ := m.advance_lenient host r₁ s₁
  · exact hsame.trans final
  · obtain ⟨rfl, _⟩ := Prod.mk.inj (hfail.symm.trans final)
    exact absurd hover (hfact _ (Option.some.inj is).symm)

theorem Ends.steps_lenient {e : RuntimeError} (h : m.Ends host n r s (.error e) s')
    (hfact : e.cause.OverFact) : ∃ r', m.lenient.Steps host n r s r' s' := by
  obtain ⟨r₁, s₁, progress, hsteps, final, is⟩ := ends_iff_steps.1 h
  refine ⟨r₁, ?_⟩
  rw [advance_eq_iff] at final
  cases final with
  | finished fetch => cases is
  | exhausted fetch limited =>
    cases is
    exact hfact.elim
  | stuck fetch free intent => exact hsteps.lenient
  | silent fetch free intent => cases is
  | granted fetch free intent answer => cases is
  | refused fetch free intent answer =>
    cases is
    exact hfact.elim

end Machine

/-- A strict run that does not fail over a fact ends just as the lenient run does, with the same
calls. A strict run that fails over a fact has made calls that the lenient run makes as well, before
any others: once the lenient run has gone through as many instructions, its log begins with the log
of the strict run. -/
theorem Program.strict_lenient (p : Program) (facts : Facts) (maxSteps : Option Nat) {σ : Type}
    (host : Host σ) (state : σ) :
    (∀ n report final,
      (p.machine facts ⟨.strict, maxSteps⟩).Ends host.logged n {} (state, []) (.ok report) final →
      (p.machine facts ⟨.lenient, maxSteps⟩).Ends host.logged n {} (state, []) (.ok report)
        final) ∧
    (∀ n e final,
      (p.machine facts ⟨.strict, maxSteps⟩).Ends host.logged n {} (state, []) (.error e) final →
      ¬ e.cause.OverFact →
      (p.machine facts ⟨.lenient, maxSteps⟩).Ends host.logged n {} (state, []) (.error e)
        final) ∧
    (∀ n e final log,
      (p.machine facts ⟨.strict, maxSteps⟩).Ends host.logged n {} (state, []) (.error e)
        (final, log) →
      e.cause.OverFact →
      ∀ k progress final' log', n ≤ k →
        (p.machine facts ⟨.lenient, maxSteps⟩).advanceUpTo host.logged k {} (state, []) =
          (progress, final', log') →
        log <+: log') := by
  refine ⟨?_, ?_, ?_⟩
  · intro n report final h
    exact h.lenient fun e he => by cases he
  · intro n e final h hfact
    refine h.lenient fun e' he => ?_
    cases he
    exact hfact
  · intro n e final log h hfact k progress final' log' hk hrun
    obtain ⟨r, hsteps⟩ := h.steps_lenient hfact
    obtain ⟨j, rfl⟩ := Nat.exists_eq_add_of_le hk
    have hrest := (Machine.advanceUpTo_of_steps hsteps j).symm.trans hrun
    exact Machine.log_prefix_of_advanceUpTo hrest

def Program.actTwice : Program :=
  [⟨.execAction, [1, 0, 97, 1, 0, 116, 1, 0, 118]⟩, ⟨.boolEq, [1, 0, 102, 1]⟩,
    ⟨.execAction, [1, 0, 98, 1, 0, 116, 1, 0, 118]⟩]

theorem Program.strict_lenient_actTwice :
    (actTwice.machine (.ofList [("f", .bool true)]) ⟨.lenient, none⟩).Ends Host.counting.logged 3 {}
      (0, []) (.ok { actions := 2, instructions := 3, factsRead := ["f"] })
      (2, [(.action ⟨none, "a", "t", "v"⟩, none), (.action ⟨none, "b", "t", "v"⟩, none)]) ∧
    (actTwice.machine (.ofList [("f", .bool true)]) ⟨.lenient, some 1⟩).Ends Host.counting.logged 1
      {} (0, []) (.error ⟨.stepLimitExceeded 1, some 1, none⟩)
      (1, [(.action ⟨none, "a", "t", "v"⟩, none)]) ∧
    [(.action ⟨none, "a", "t", "v"⟩, none)] <+:
      ((actTwice.machine .empty ⟨.lenient, none⟩).advanceUpTo Host.counting.logged 4 {}
        (0, [])).2.2 := by
  have hok : (actTwice.machine (.ofList [("f", .bool true)]) ⟨.strict, none⟩).Ends
      Host.counting.logged 3 {} (0, [])
      (.ok { actions := 2, instructions := 3, factsRead := ["f"] })
      (2, [(.action ⟨none, "a", "t", "v"⟩, none), (.action ⟨none, "b", "t", "v"⟩, none)]) :=
    .succ rfl (.succ rfl (.succ rfl (.last rfl rfl)))
  have hlimit : (actTwice.machine (.ofList [("f", .bool true)]) ⟨.strict, some 1⟩).Ends
      Host.counting.logged 1 {} (0, []) (.error ⟨.stepLimitExceeded 1, some 1, none⟩)
      (1, [(.action ⟨none, "a", "t", "v"⟩, none)]) := .succ rfl (.last rfl rfl)
  have hmissing : (actTwice.machine .empty ⟨.strict, none⟩).Ends Host.counting.logged 1 {} (0, [])
      (.error ⟨.missingFact "f", some 1, none⟩) (1, [(.action ⟨none, "a", "t", "v"⟩, none)]) :=
    .succ rfl (.last rfl rfl)
  refine ⟨?_, ?_, ?_⟩
  · exact (strict_lenient actTwice _ none Host.counting 0).1 _ _ _ hok
  · exact (strict_lenient actTwice _ (some 1) Host.counting 0).2.1 _ _ _ hlimit id
  · exact (strict_lenient actTwice .empty none Host.counting 0).2.2 _ _ _ _ hmissing trivial 4 _ _ _
      (by decide) rfl

end RuleMachine
