import RuleMachine.Proofs.Compact.Simulation

set_option autoImplicit false

namespace RuleMachine

variable {p q : Program} {σ : Type}

theorem Registers.compacted_start (p : Program) :
    Registers.compacted p 0 ({} : Registers) = {} := by
  simp only [compacted, moved, Program.compactIndex_zero]

/-- Without a limit on steps a program ends just when its compact form does. Both make the same
calls and have the same result but for the count of instructions, which is no greater, and the
place of an error. Under a limit the compact form still does what the program does unless the limit
cuts the program off. -/
theorem Program.runs_compact (hq : p.compact = .ok q) (facts : Facts) (policy : FactPolicy)
    (host : Host σ) (state : σ) :
    (∀ n result final,
      (p.machine facts ⟨policy, none⟩).Ends host.logged n {} (state, []) result final →
      ∃ k, k ≤ n ∧ (q.machine facts ⟨policy, none⟩).Ends host.logged k {} (state, [])
        (compactResult p k result) final) ∧
    ((∃ k result final,
      (q.machine facts ⟨policy, none⟩).Ends host.logged k {} (state, []) result final) →
      ∃ n result final,
        (p.machine facts ⟨policy, none⟩).Ends host.logged n {} (state, []) result final) ∧
    (∀ limit n result final,
      (p.machine facts ⟨policy, some limit⟩).Ends host.logged n {} (state, []) result final →
      ¬ CutOff result →
      ∃ k, k ≤ n ∧ (q.machine facts ⟨policy, some limit⟩).Ends host.logged k {} (state, [])
        (compactResult p k result) final) := by
  have hstart := Registers.compacted_start p
  have forward : ∀ maxSteps n result final,
      (p.machine facts ⟨policy, maxSteps⟩).Ends host.logged n {} (state, []) result final →
      ¬ CutOff result →
      ∃ k, k ≤ n ∧ (q.machine facts ⟨policy, maxSteps⟩).Ends host.logged k {} (state, [])
        (compactResult p k result) final := by
    intro maxSteps n result final h hlimit
    obtain ⟨k, hk, he⟩ := ends_compact hq h (Nat.zero_le _) hlimit
    rw [hstart, Nat.zero_add] at he
    exact ⟨k, hk, he⟩
  refine ⟨?_, ?_, ?_⟩
  · intro n result final h
    exact forward none n result final h (not_cutOff_of_ends rfl h)
  · intro h
    obtain ⟨k, result, final, h⟩ := h
    obtain ⟨n, result', he⟩ := ends_of_compact hq rfl h hstart.symm (Nat.zero_le _)
    exact ⟨n, result', final, he⟩
  · intro limit n result final h hlimit
    exact forward (some limit) n result final h hlimit

def Program.markedLoop : Program :=
  [⟨.label, []⟩, .jump .jumpIfFalse 1, ⟨.label, []⟩, ⟨.label, []⟩,
    ⟨.execAction, [1, 0, 97, 1, 0, 98, 1, 0, 99]⟩, .jump .jumpIfTrue (-6)]

theorem Program.runs_compact_markedLoop : ∃ q, markedLoop.compact = .ok q ∧
    ∃ k, k ≤ 5 ∧ (q.machine .empty ⟨.strict, some 5⟩).Ends Host.counting.logged k {} (0, [])
      (.ok { actions := 1, instructions := k }) (1, [(.action ⟨none, "a", "b", "c"⟩, none)]) := by
  have hq : markedLoop.compact = .ok [.jump .jumpIfFalse 0,
      ⟨.execAction, [1, 0, 97, 1, 0, 98, 1, 0, 99]⟩, .jump .jumpIfTrue (-3)] := rfl
  have hrun : (markedLoop.machine .empty ⟨.strict, some 5⟩).advanceUpTo Host.counting.logged 6 {}
      (0, []) = (.finished { actions := 1, instructions := 5 },
        (1, [(.action ⟨none, "a", "b", "c"⟩, none)])) := rfl
  obtain ⟨n, hn, h⟩ := Machine.ends_of_advanceUpTo hrun rfl
  have hlimit : ¬ CutOff (.ok { actions := 1, instructions := 5 }) := by
    intro hc
    obtain ⟨_, _, hc, _⟩ := hc
    cases hc
  obtain ⟨k, hk, he⟩ := (runs_compact hq .empty .strict Host.counting 0).2.2 5 n _ _ h hlimit
  exact ⟨_, hq, k, by omega, he⟩

end RuleMachine
