import RuleMachine.Proofs.Machine.Log

set_option autoImplicit false

namespace RuleMachine

namespace Machine

def within (limit : Nat) (m : Machine) : Machine :=
  { m with settings.maxSteps := some limit }

variable {σ : Type} {m : Machine} {host : Host σ} {limit n : Nat} {r r' : Registers} {s s' : σ}
  {result : Except RuntimeError Report}

theorem limitReached_within :
    (m.within limit).limitReached r =
      if limit ≤ r.report.instructions then some limit else none := by
  simp [limitReached, within, Option.filter]

theorem advance_within (free : m.settings.maxSteps = none) (h : r.report.instructions < limit) :
    (m.within limit).advance host r s = m.advance host r s := by
  have hlimit : (m.within limit).limitReached r = none := by
    rw [limitReached_within, if_neg (Nat.not_le.2 h)]
  exact advance_congr rfl (hlimit.trans (limitReached_of_unlimited free r).symm) fun _ _ _ => rfl

theorem advance_within_of_finished {report : Report}
    (h : m.advance host r s = (.finished report, s')) :
    (m.within limit).advance host r s = (.finished report, s') := by
  rw [advance_eq_iff] at h ⊢
  cases h with
  | finished fetch => exact .finished fetch

theorem Steps.within (free : m.settings.maxSteps = none) (h : m.Steps host n r s r' s')
    (hn : r.report.instructions + n ≤ limit) : (m.within limit).Steps host n r s r' s' := by
  induction h with
  | zero => exact .zero
  | succ first rest ih =>
    have hcount := (running_of_advance first).2
    exact .succ ((advance_within free (by omega)).trans first) (ih (by omega))

/-- A run that ends in time ends in the same way under the limit. To come to the end of the program
with the last instruction is in time, to fail with the next one is not. -/
theorem Ends.within (limit : Nat) (free : m.settings.maxSteps = none) (h : m.Ends host n r s result s')
    (hn : r.report.instructions + n ≤ limit)
    (hfail : ∀ e, result = .error e → r.report.instructions + n < limit) :
    (m.within limit).Ends host n r s result s' := by
  obtain ⟨r₁, s₁, progress, hsteps, final, is⟩ := ends_iff_steps.1 h
  refine ends_iff_steps.2 ⟨r₁, s₁, progress, hsteps.within free hn, ?_, is⟩
  cases progress with
  | running next => cases is
  | finished report => exact advance_within_of_finished final
  | failed e =>
    cases is
    have hcount := hsteps.instructions
    have hlimit := hfail e rfl
    exact (advance_within free (by omega)).trans final

theorem Steps.cutOff (limit : Nat) (free : m.settings.maxSteps = none) (h : m.Steps host n r s r' s')
    (hn : r.report.instructions + n = limit)
    (unfinished : ∀ report s'', ¬ m.Ends host n r s (.ok report) s'') :
    (m.within limit).Ends host n r s (.error (r'.fail (.stepLimitExceeded limit))) s' := by
  have hcount := h.instructions
  have hlimit : (m.within limit).limitReached r' = some limit := by
    rw [limitReached_within, if_pos (by omega)]
  have hcut : (m.within limit).advance host r' s' =
      (.failed (r'.fail (.stepLimitExceeded limit)), s') := by
    cases hfetch : m.program[r'.address]? with
    | none =>
      have hdone : m.advance host r' s' = (.finished r'.report, s') :=
        advance_eq_iff.2 (.finished hfetch)
      exact absurd (ends_iff_steps.2 ⟨r', s', _, h, hdone, rfl⟩) (unfinished _ _)
    | some i => exact advance_eq_iff.2 (.exhausted hfetch hlimit)
  exact ends_iff_steps.2 ⟨r', s', _, h.within free (by omega), hcut, rfl⟩

theorem exists_ends_within (free : m.settings.maxSteps = none) (host : Host σ) (limit : Nat)
    (s : σ) : ∃ n ≤ limit, ∃ result s', (m.within limit).Ends host n {} s result s' := by
  have hzero : ({} : Registers).report.instructions = 0 := rfl
  by_cases hdone : ∃ n ≤ limit, ∃ report s', m.Ends host n {} s (.ok report) s'
  · obtain ⟨n, hn, report, s', h⟩ := hdone
    exact ⟨n, hn, _, _, h.within limit free (by omega) fun e he => by cases he⟩
  · obtain ⟨r, s', h⟩ | ⟨n, hn, result, s', h⟩ := m.steps_or_ends host limit {} s
    · refine ⟨limit, Nat.le_refl _, _, _, h.cutOff limit free (by omega) fun report s'' hends => ?_⟩
      exact hdone ⟨limit, Nat.le_refl _, report, s'', hends⟩
    · exact ⟨n, by omega, _, _, h.within limit free (by omega) fun _ _ => by omega⟩

theorem run_of_ends (h : m.Ends host n {} s result s') (hn : n < m.patience) :
    m.run host s =
      match result with
      | .ok report => (.finished report, s')
      | .error e => (.failed e, s') := by
  obtain ⟨progress, is, hrun⟩ := run_eq_iff.2 ⟨n, hn, h⟩
  rw [hrun]
  cases progress with
  | running next => cases is
  | finished report =>
    cases is
    rfl
  | failed e =>
    cases is
    rfl

end Machine

/-- A limit on steps ends every run and changes nothing else. A run that comes to the end of its
program within the limit, or fails before the limit, does so under the limit too. Every other run,
endless ones included, is cut off: it has made exactly the calls of as many instructions as the
limit allows, and the error names the place and the rule that it has then come to. -/
theorem Program.runs_within_limit (p : Program) (facts : Facts) (policy : FactPolicy) {σ : Type}
    (host : Host σ) (state : σ) (limit : Nat) :
    (∃ n ≤ limit, ∃ result final, (p.machine facts ⟨policy, some limit⟩).Ends host.logged n {}
      (state, []) result final) ∧
    (∀ n report final,
      (p.machine facts ⟨policy, none⟩).Ends host.logged n {} (state, []) (.ok report) final →
      n ≤ limit →
      (p.machine facts ⟨policy, some limit⟩).run host.logged (state, []) =
        (.finished report, final)) ∧
    (∀ n e final,
      (p.machine facts ⟨policy, none⟩).Ends host.logged n {} (state, []) (.error e) final →
      n < limit →
      (p.machine facts ⟨policy, some limit⟩).run host.logged (state, []) = (.failed e, final)) ∧
    ((∀ n report final,
        (p.machine facts ⟨policy, none⟩).Ends host.logged n {} (state, []) (.ok report) final →
        limit < n) →
      (∀ n e final,
        (p.machine facts ⟨policy, none⟩).Ends host.logged n {} (state, []) (.error e) final →
        limit ≤ n) →
      ∃ r final,
        (p.machine facts ⟨policy, none⟩).Steps host.logged limit {} (state, []) r final ∧
        (p.machine facts ⟨policy, some limit⟩).run host.logged (state, []) =
          (.failed (r.fail (.stepLimitExceeded limit)), final)) := by
  have free : (p.machine facts ⟨policy, none⟩).settings.maxSteps = none := rfl
  have hzero : ({} : Registers).report.instructions = 0 := rfl
  have hpatience : ((p.machine facts ⟨policy, none⟩).within limit).patience = limit + 1 := rfl
  refine ⟨Machine.exists_ends_within free host.logged limit (state, []), ?_, ?_, ?_⟩
  · intro n report final h hn
    have hends := h.within limit free (by omega) fun e he => by cases he
    exact Machine.run_of_ends hends (by omega)
  · intro n e final h hn
    have hends := h.within limit free (by omega) fun _ _ => by omega
    exact Machine.run_of_ends hends (by omega)
  · intro hok herror
    obtain ⟨r, final, h⟩ | ⟨n, hn, result, final, h⟩ :=
      (p.machine facts ⟨policy, none⟩).steps_or_ends host.logged limit {} (state, [])
    · refine ⟨r, final, h, ?_⟩
      have hends := h.cutOff limit free (by omega) fun report s hends =>
        Nat.lt_irrefl _ (hok _ _ _ hends)
      exact Machine.run_of_ends hends (by omega)
    · cases result with
      | ok report => exact absurd (hok _ _ _ h) (by omega)
      | error e => exact absurd (herror _ _ _ h) (by omega)

def Program.actThenTest : Program :=
  [⟨.execAction, [1, 0, 97, 1, 0, 116, 1, 0, 118]⟩, ⟨.boolEq, [1, 0, 102, 1]⟩]

theorem Program.runs_within_limit_actThenTest :
    (actThenTest.machine (.ofList [("f", .bool true)]) ⟨.strict, some 2⟩).run Host.counting.logged
      (0, []) = (.finished { actions := 1, instructions := 2, factsRead := ["f"] }, 1,
        [(.action ⟨none, "a", "t", "v"⟩, none)]) ∧
    (actThenTest.machine .empty ⟨.strict, some 2⟩).run Host.counting.logged (0, []) =
      (.failed ⟨.missingFact "f", some 1, none⟩, 1, [(.action ⟨none, "a", "t", "v"⟩, none)]) ∧
    ∃ r final,
      (actThenTest.machine .empty ⟨.strict, none⟩).Steps Host.counting.logged 1 {} (0, []) r final ∧
      (actThenTest.machine .empty ⟨.strict, some 1⟩).run Host.counting.logged (0, []) =
        (.failed (r.fail (.stepLimitExceeded 1)), final) := by
  have hok : (actThenTest.machine (.ofList [("f", .bool true)]) ⟨.strict, none⟩).Ends
      Host.counting.logged 2 {} (0, [])
      (.ok { actions := 1, instructions := 2, factsRead := ["f"] })
      (1, [(.action ⟨none, "a", "t", "v"⟩, none)]) :=
    .succ rfl (.succ rfl (.last rfl rfl))
  have hmissing : (actThenTest.machine .empty ⟨.strict, none⟩).Ends Host.counting.logged 1 {}
      (0, []) (.error ⟨.missingFact "f", some 1, none⟩)
      (1, [(.action ⟨none, "a", "t", "v"⟩, none)]) :=
    .succ rfl (.last rfl rfl)
  refine ⟨?_, ?_, ?_⟩
  · exact (runs_within_limit actThenTest _ .strict Host.counting 0 2).2.1 _ _ _ hok (by decide)
  · exact (runs_within_limit actThenTest .empty .strict Host.counting 0 2).2.2.1 _ _ _ hmissing
      (by decide)
  · refine (runs_within_limit actThenTest .empty .strict Host.counting 0 1).2.2.2 ?_ ?_
    · intro n report final h
      cases (h.unique hmissing).2.1
    · intro n e final h
      exact Nat.le_of_eq (h.unique hmissing).1.symm

example : (Program.machine [.jump .jumpIfFalse (-1)] .empty ⟨.lenient, some 3⟩).run Host.counting 0 =
    (.failed ⟨.stepLimitExceeded 3, some 0, none⟩, 0) := rfl

end RuleMachine
