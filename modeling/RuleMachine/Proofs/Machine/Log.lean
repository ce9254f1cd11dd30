import RuleMachine.Proofs.Machine.Ends

set_option autoImplicit false

namespace RuleMachine

/-- Calls in order, each with the refusal if it was refused. -/
abbrev CallLog := List (HostCall × Option HostError)

namespace Host

variable {σ : Type} (host : Host σ)

def note (call : HostCall) : EStateM HostError (σ × CallLog) Unit := fun (s, log) =>
  match host.perform call s with
  | .ok () s => .ok () (s, log ++ [(call, none)])
  | .error e s => .error e (s, log ++ [(call, some e)])

def logged : Host (σ × CallLog) where
  execute call := host.note (.action call)
  defineScript definition := host.note (.definition definition)
  callScript call := host.note (.script call)

variable {host} {call : HostCall} {s s' : σ} {log : CallLog} {e : HostError}

theorem perform_logged (call : HostCall) : host.logged.perform call = host.note call := by
  cases call <;> rfl

theorem perform_logged_of_ok (h : host.perform call s = .ok () s') :
    host.logged.perform call (s, log) = .ok () (s', log ++ [(call, none)]) := by
  simp only [perform_logged, note, h]

theorem perform_logged_of_error (h : host.perform call s = .error e s') :
    host.logged.perform call (s, log) = .error e (s', log ++ [(call, some e)]) := by
  simp only [perform_logged, note, h]

theorem log_of_refused {t t' : σ × CallLog} (h : host.logged.perform call t = .error e t') :
    t'.2.getLast? = some (call, some e) := by
  obtain ⟨s, log⟩ := t
  cases hp : host.perform call s with
  | ok u s' =>
    rw [perform_logged_of_ok hp] at h
    cases h
  | error e' s' =>
    rw [perform_logged_of_error hp] at h
    cases h
    exact List.getLast?_concat

theorem log_prefix_of_perform {t t' : σ × CallLog}
    (h : host.logged.perform call t = .ok () t' ∨ ∃ e, host.logged.perform call t = .error e t') :
    t.2 <+: t'.2 := by
  obtain ⟨s, log⟩ := t
  cases hp : host.perform call s with
  | ok u s' =>
    obtain h | ⟨e, h⟩ := h
    · rw [perform_logged_of_ok hp] at h
      cases h
      exact List.prefix_append _ _
    · rw [perform_logged_of_ok hp] at h
      cases h
  | error e' s' =>
    obtain h | ⟨e, h⟩ := h
    · rw [perform_logged_of_error hp] at h
      cases h
    · rw [perform_logged_of_error hp] at h
      cases h
      exact List.prefix_append _ _

end Host

namespace Machine

variable {σ : Type} {m : Machine} {host : Host σ} {n : Nat} {r : Registers} {s s' : σ}
  {progress : Progress} {result : Except RuntimeError Report}

theorem advance_logged (h : m.advance host r s = (progress, s')) (log : CallLog) :
    ∃ log', m.advance host.logged r (s, log) = (progress, s', log') := by
  simp only [advance_eq_iff] at h ⊢
  cases h with
  | finished fetch => exact ⟨log, .finished fetch⟩
  | exhausted fetch limited => exact ⟨log, .exhausted fetch limited⟩
  | stuck fetch free intent => exact ⟨log, .stuck fetch free intent⟩
  | silent fetch free intent => exact ⟨log, .silent fetch free intent⟩
  | granted fetch free intent answer =>
    exact ⟨_, .granted fetch free intent (Host.perform_logged_of_ok answer)⟩
  | refused fetch free intent answer =>
    exact ⟨_, .refused fetch free intent (Host.perform_logged_of_error answer)⟩

/-- A run ends in the same way on the host and on the logged host. -/
theorem ends_logged (h : m.Ends host n r s result s') (log : CallLog) :
    ∃ log', m.Ends host.logged n r (s, log) result (s', log') := by
  induction h generalizing log with
  | last final is =>
    obtain ⟨log', h⟩ := advance_logged final log
    exact ⟨log', .last h is⟩
  | succ first rest ih =>
    obtain ⟨log', h⟩ := advance_logged first log
    obtain ⟨log'', h'⟩ := ih log'
    exact ⟨log'', .succ h h'⟩

theorem ends_of_logged {t t' : σ × CallLog} (h : m.Ends host.logged n r t result t') :
    m.Ends host n r t.1 result t'.1 := by
  induction h with
  | @last r t t' progress result final is =>
    cases ha : m.advance host r t.1 with
    | mk progress' s' =>
      obtain ⟨log', hl⟩ := advance_logged ha t.2
      obtain ⟨rfl, rfl⟩ := Prod.mk.inj (final.symm.trans hl)
      exact .last ha is
  | @succ n r r₁ t t₁ t₂ result first rest ih =>
    cases ha : m.advance host r t.1 with
    | mk progress' s' =>
      obtain ⟨log', hl⟩ := advance_logged ha t.2
      obtain ⟨rfl, rfl⟩ := Prod.mk.inj (first.symm.trans hl)
      exact .succ ha ih

theorem log_prefix_of_advance {t t' : σ × CallLog}
    (h : m.advance host.logged r t = (progress, t')) : t.2 <+: t'.2 := by
  rw [advance_eq_iff] at h
  cases h with
  | finished fetch => exact List.prefix_refl _
  | exhausted fetch limited => exact List.prefix_refl _
  | stuck fetch free intent => exact List.prefix_refl _
  | silent fetch free intent => exact List.prefix_refl _
  | granted fetch free intent answer => exact Host.log_prefix_of_perform (.inl answer)
  | refused fetch free intent answer => exact Host.log_prefix_of_perform (.inr ⟨_, answer⟩)

theorem log_prefix_of_advanceUpTo {t t' : σ × CallLog}
    (h : m.advanceUpTo host.logged n r t = (progress, t')) : t.2 <+: t'.2 := by
  induction n generalizing r t with
  | zero =>
    cases h
    exact List.prefix_refl _
  | succ n ih =>
    obtain ⟨next, t₁, first, rest⟩ | ⟨final, _⟩ := advanceUpTo_succ_eq_iff.1 h
    · exact (log_prefix_of_advance first).trans (ih rest)
    · exact log_prefix_of_advance final

end Machine

end RuleMachine
