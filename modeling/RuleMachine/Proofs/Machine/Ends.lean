import RuleMachine.Machine.Session
import RuleMachine.Proofs.Machine.Advance
/-!
Runs as sequences of steps. `Steps n` goes through exactly `n` instructions; `Ends n` goes through
`n` instructions and then ends. Neither knows of the patience of `Machine.run`, which is related to
them at the end.
-/

set_option autoImplicit false

namespace RuleMachine

def Program.machine (p : Program) (facts : Facts) (settings : RunSettings) : Machine :=
  ((Session.start p settings).setFacts facts).machine

theorem Program.machine_getElem? (p : Program) (facts : Facts) (settings : RunSettings) (a : Nat) :
    (p.machine facts settings).program[a]? = p[a]? := by
  simp [Program.machine, Session.setFacts, Session.start]

theorem Program.machine_size (p : Program) (facts : Facts) (settings : RunSettings) :
    (p.machine facts settings).program.size = p.length := rfl

namespace Machine

variable {σ : Type} (m : Machine) (host : Host σ)

inductive Steps : Nat → Registers → σ → Registers → σ → Prop where
  | zero {r : Registers} {s : σ} : Steps 0 r s r s
  | succ {n : Nat} {r r₁ r₂ : Registers} {s s₁ s₂ : σ}
      (first : m.advance host r s = (.running r₁, s₁)) (rest : Steps n r₁ s₁ r₂ s₂) :
      Steps (n + 1) r s r₂ s₂

/-- A run completes `n` instructions and then ends with a result. -/
inductive Ends : Nat → Registers → σ → Except RuntimeError Report → σ → Prop where
  | last {r : Registers} {s s' : σ} {progress : Progress} {result : Except RuntimeError Report}
      (final : m.advance host r s = (progress, s')) (is : progress.result? = some result) :
      Ends 0 r s result s'
  | succ {n : Nat} {r r₁ : Registers} {s s₁ s₂ : σ} {result : Except RuntimeError Report}
      (first : m.advance host r s = (.running r₁, s₁)) (rest : Ends n r₁ s₁ result s₂) :
      Ends (n + 1) r s result s₂

variable {m host} {n k : Nat} {r r₁ r₂ : Registers} {s s₁ s₂ : σ}
  {result result' : Except RuntimeError Report}

theorem Steps.one (h : m.advance host r s = (.running r₁, s₁)) : m.Steps host 1 r s r₁ s₁ :=
  .succ h .zero

theorem Steps.trans (h₁ : m.Steps host n r s r₁ s₁) (h₂ : m.Steps host k r₁ s₁ r₂ s₂) :
    m.Steps host (n + k) r s r₂ s₂ := by
  induction h₁ with
  | zero =>
    rw [Nat.zero_add]
    exact h₂
  | succ first rest ih =>
    rw [Nat.succ_add]
    exact .succ first (ih h₂)

theorem Steps.ends (h₁ : m.Steps host n r s r₁ s₁) (h₂ : m.Ends host k r₁ s₁ result s₂) :
    m.Ends host (n + k) r s result s₂ := by
  induction h₁ with
  | zero =>
    rw [Nat.zero_add]
    exact h₂
  | succ first rest ih =>
    rw [Nat.succ_add]
    exact .succ first (ih h₂)

theorem ends_iff_steps : m.Ends host n r s result s₂ ↔
    ∃ r₁ s₁ progress, m.Steps host n r s r₁ s₁ ∧ m.advance host r₁ s₁ = (progress, s₂) ∧
      progress.result? = some result := by
  constructor
  · intro h
    induction h with
    | last final is => exact ⟨_, _, _, .zero, final, is⟩
    | succ first rest ih =>
      obtain ⟨r₁, s₁, progress, hsteps, hlast⟩ := ih
      exact ⟨r₁, s₁, progress, .succ first hsteps, hlast⟩
  · intro h
    obtain ⟨r₁, s₁, progress, hsteps, final, is⟩ := h
    exact hsteps.ends (.last final is)

theorem Steps.instructions (h : m.Steps host n r s r₁ s₁) :
    r₁.report.instructions = r.report.instructions + n := by
  induction h with
  | zero => rfl
  | succ first rest ih =>
    have hcount := (running_of_advance first).2
    omega

/-- A run ends in one way only. -/
theorem Ends.unique (h₁ : m.Ends host n r s result s₁) (h₂ : m.Ends host k r s result' s₂) :
    n = k ∧ result = result' ∧ s₁ = s₂ := by
  induction h₁ generalizing k with
  | last final is =>
    cases h₂ with
    | last final' is' =>
      obtain ⟨rfl, rfl⟩ := Prod.mk.inj (final.symm.trans final')
      exact ⟨rfl, Option.some.inj (is.symm.trans is'), rfl⟩
    | succ first rest =>
      obtain ⟨rfl, _⟩ := Prod.mk.inj (final.symm.trans first)
      cases is
  | succ first rest ih =>
    cases h₂ with
    | last final is =>
      obtain ⟨rfl, _⟩ := Prod.mk.inj (final.symm.trans first)
      cases is
    | succ first' rest' =>
      obtain ⟨hr, rfl⟩ := Prod.mk.inj (first.symm.trans first')
      cases hr
      obtain ⟨rfl, hx, hs⟩ := ih rest'
      exact ⟨rfl, hx, hs⟩

section Patience

variable {progress : Progress}

theorem advanceUpTo_succ_eq_iff {out : Progress × σ} : m.advanceUpTo host (n + 1) r s = out ↔
    (∃ next s₁, m.advance host r s = (.running next, s₁) ∧ m.advanceUpTo host n next s₁ = out) ∨
      m.advance host r s = out ∧ ∃ result, out.1.result? = some result := by
  rw [advanceUpTo]
  cases ha : m.advance host r s with
  | mk progress s₁ =>
    cases progress with
    | running next =>
      constructor
      · intro h
        exact .inl ⟨next, s₁, rfl, h⟩
      · intro h
        obtain ⟨_, _, hfirst, hrest⟩ | ⟨rfl, _, is⟩ := h
        · cases hfirst
          exact hrest
        · cases is
    | finished report =>
      constructor
      · rintro rfl
        exact .inr ⟨rfl, _, rfl⟩
      · intro h
        obtain ⟨_, _, hfirst, _⟩ | ⟨hlast, _⟩ := h
        · cases hfirst
        · exact hlast
    | failed e =>
      constructor
      · rintro rfl
        exact .inr ⟨rfl, _, rfl⟩
      · intro h
        obtain ⟨_, _, hfirst, _⟩ | ⟨hlast, _⟩ := h
        · cases hfirst
        · exact hlast

theorem advanceUpTo_of_ends (h : m.Ends host n r s result s₁) (hn : n < k) :
    ∃ progress, progress.result? = some result ∧
      m.advanceUpTo host k r s = (progress, s₁) := by
  induction h generalizing k with
  | @last r s s' progress result final is =>
    cases k with
    | zero => omega
    | succ k => exact ⟨progress, is, advanceUpTo_succ_eq_iff.2 (.inr ⟨final, result, is⟩)⟩
  | succ first rest ih =>
    cases k with
    | zero => omega
    | succ k =>
      obtain ⟨progress, is, hk⟩ := ih (k := k) (by omega)
      exact ⟨progress, is, advanceUpTo_succ_eq_iff.2 (.inl ⟨_, _, first, hk⟩)⟩

theorem ends_of_advanceUpTo (h : m.advanceUpTo host k r s = (progress, s₁))
    (is : progress.result? = some result) : ∃ n, n < k ∧ m.Ends host n r s result s₁ := by
  induction k generalizing r s with
  | zero =>
    obtain ⟨rfl, _⟩ := Prod.mk.inj h
    cases is
  | succ k ih =>
    obtain ⟨next, s', first, rest⟩ | ⟨final, _⟩ := advanceUpTo_succ_eq_iff.1 h
    · obtain ⟨n, hn, he⟩ := ih rest
      exact ⟨n + 1, by omega, .succ first he⟩
    · exact ⟨0, by omega, .last final is⟩

theorem advanceUpTo_of_steps (h : m.Steps host n r s r₁ s₁) (k : Nat) :
    m.advanceUpTo host (n + k) r s = m.advanceUpTo host k r₁ s₁ := by
  induction h with
  | zero => rw [Nat.zero_add]
  | succ first rest ih =>
    rw [Nat.succ_add, advanceUpTo, first]
    exact ih

theorem steps_of_advanceUpTo (h : m.advanceUpTo host n r s = (.running r₁, s₁)) :
    m.Steps host n r s r₁ s₁ := by
  induction n generalizing r s with
  | zero =>
    cases h
    exact .zero
  | succ n ih =>
    obtain ⟨next, s', first, rest⟩ | ⟨_, _, is⟩ := advanceUpTo_succ_eq_iff.1 h
    · exact .succ first (ih rest)
    · cases is

theorem steps_or_ends (m : Machine) (host : Host σ) (n : Nat) (r : Registers) (s : σ) :
    (∃ r₁ s₁, m.Steps host n r s r₁ s₁) ∨
      ∃ k < n, ∃ result s₁, m.Ends host k r s result s₁ := by
  cases h : m.advanceUpTo host n r s with
  | mk progress s₁ =>
    cases progress with
    | running r₁ => exact .inl ⟨r₁, s₁, steps_of_advanceUpTo h⟩
    | finished report =>
      obtain ⟨k, hk, hends⟩ := ends_of_advanceUpTo h rfl
      exact .inr ⟨k, hk, _, _, hends⟩
    | failed e =>
      obtain ⟨k, hk, hends⟩ := ends_of_advanceUpTo h rfl
      exact .inr ⟨k, hk, _, _, hends⟩

/-- `Machine.run` gives the result of every run that ends within its patience. -/
theorem run_eq_iff : (∃ progress, progress.result? = some result ∧ m.run host s = (progress, s₁)) ↔
    ∃ n, n < m.patience ∧ m.Ends host n {} s result s₁ := by
  constructor
  · intro h
    obtain ⟨progress, is, hr⟩ := h
    exact ends_of_advanceUpTo hr is
  · intro h
    obtain ⟨n, hn, he⟩ := h
    exact advanceUpTo_of_ends he hn

end Patience

end Machine

end RuleMachine
