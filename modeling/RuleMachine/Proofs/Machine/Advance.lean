import RuleMachine.Machine.Run
/-!
Everything that one step of a run can do. `Advances` has a case for each way a step can go, with
what makes it go that way, and `advance_eq_iff` says that these are the steps of the machine.
-/

set_option autoImplicit false

namespace RuleMachine

namespace Machine

section

variable {σ : Type} (m : Machine) (host : Host σ) (r : Registers) (s : σ)

inductive Advances : Progress × σ → Prop where
  | finished (fetch : m.program[r.address]? = none) : Advances (.finished r.report, s)
  | exhausted {i : Instruction} {limit : Nat} (fetch : m.program[r.address]? = some i)
      (limited : m.limitReached r = some limit) :
      Advances (.failed (r.fail (.stepLimitExceeded limit)), s)
  | stuck {i : Instruction} {cause : RuntimeCause} (fetch : m.program[r.address]? = some i)
      (free : m.limitReached r = none) (intent : m.intent i r = .error cause) :
      Advances (.failed (r.fail cause), s)
  | silent {i : Instruction} {next : Registers} (fetch : m.program[r.address]? = some i)
      (free : m.limitReached r = none) (intent : m.intent i r = .ok ⟨none, next⟩) :
      Advances (.running { next with report.instructions := r.report.instructions + 1 }, s)
  | granted {i : Instruction} {call : HostCall} {next : Registers} {s' : σ}
      (fetch : m.program[r.address]? = some i) (free : m.limitReached r = none)
      (intent : m.intent i r = .ok ⟨some call, next⟩)
      (answer : host.perform call s = .ok () s') :
      Advances (.running { next with report.instructions := r.report.instructions + 1 }, s')
  | refused {i : Instruction} {call : HostCall} {next : Registers} {e : HostError} {s' : σ}
      (fetch : m.program[r.address]? = some i) (free : m.limitReached r = none)
      (intent : m.intent i r = .ok ⟨some call, next⟩)
      (answer : host.perform call s = .error e s') :
      Advances (.failed (r.fail (.host e)), s')

end

variable {σ : Type} {m : Machine} {host : Host σ} {i : Instruction} {r next : Registers}
  {s s' : σ}

section Dispatch

variable {cause : RuntimeCause} {call : HostCall} {e : HostError}

theorem dispatch_of_error (h : m.intent i r = .error cause) :
    m.dispatch host i r s = .error cause s := by
  rw [dispatch, h]
  rfl

theorem dispatch_of_silent (h : m.intent i r = .ok ⟨none, next⟩) :
    m.dispatch host i r s = .ok next s := by
  rw [dispatch, h]
  rfl

theorem dispatch_of_granted (h : m.intent i r = .ok ⟨some call, next⟩)
    (hc : host.perform call s = .ok () s') : m.dispatch host i r s = .ok next s' := by
  have hs : Step.ofHost (host.perform call) s = .ok () s' := by rw [Step.ofHost, hc]
  rw [dispatch, h]
  change EStateM.bind (Step.ofHost (host.perform call)) _ s = _
  rw [EStateM.bind, hs]
  rfl

theorem dispatch_of_refused (h : m.intent i r = .ok ⟨some call, next⟩)
    (hc : host.perform call s = .error e s') :
    m.dispatch host i r s = .error (.host e) s' := by
  have hs : Step.ofHost (host.perform call) s = .error (.host e) s' := by rw [Step.ofHost, hc]
  rw [dispatch, h]
  change EStateM.bind (Step.ofHost (host.perform call)) _ s = _
  rw [EStateM.bind, hs]

end Dispatch

theorem advances (m : Machine) (host : Host σ) (r : Registers) (s : σ) :
    Advances m host r s (m.advance host r s) := by
  unfold advance
  split
  · rename_i h
    exact .finished h
  · rename_i i hi
    split
    · rename_i limit hl
      exact .exhausted hi hl
    · rename_i hl
      cases h : m.intent i r with
      | error cause =>
        rw [dispatch_of_error h]
        exact .stuck hi hl h
      | ok intent =>
        obtain ⟨call?, next⟩ := intent
        cases call? with
        | none =>
          rw [dispatch_of_silent h]
          exact .silent hi hl h
        | some call =>
          cases hc : host.perform call s with
          | ok u s' =>
            rw [dispatch_of_granted h hc]
            exact .granted hi hl h hc
          | error e s' =>
            rw [dispatch_of_refused h hc]
            exact .refused hi hl h hc

theorem advance_eq_iff {out : Progress × σ} :
    m.advance host r s = out ↔ Advances m host r s out := by
  constructor
  · intro h
    rw [← h]
    exact advances m host r s
  · intro h
    cases h with
    | finished fetch => simp only [advance, fetch]
    | exhausted fetch limited => simp only [advance, fetch, limited]
    | stuck fetch free intent => simp only [advance, fetch, free, dispatch_of_error intent]
    | silent fetch free intent => simp only [advance, fetch, free, dispatch_of_silent intent]
    | granted fetch free intent answer =>
      simp only [advance, fetch, free, dispatch_of_granted intent answer]
    | refused fetch free intent answer =>
      simp only [advance, fetch, free, dispatch_of_refused intent answer]

theorem advance_congr {m' : Machine} (fetch : m'.program[r.address]? = m.program[r.address]?)
    (limit : m'.limitReached r = m.limitReached r)
    (intent : ∀ i, m.program[r.address]? = some i → m.limitReached r = none →
      m'.intent i r = m.intent i r) :
    m'.advance host r s = m.advance host r s := by
  have h := advances m host r s
  generalize m.advance host r s = out at h
  rw [advance_eq_iff]
  cases h with
  | finished hi => exact .finished (fetch.trans hi)
  | exhausted hi limited => exact .exhausted (fetch.trans hi) (limit.trans limited)
  | stuck hi free stops =>
    exact .stuck (fetch.trans hi) (limit.trans free) ((intent _ hi free).trans stops)
  | silent hi free goes =>
    exact .silent (fetch.trans hi) (limit.trans free) ((intent _ hi free).trans goes)
  | granted hi free asks answer =>
    exact .granted (fetch.trans hi) (limit.trans free) ((intent _ hi free).trans asks) answer
  | refused hi free asks answer =>
    exact .refused (fetch.trans hi) (limit.trans free) ((intent _ hi free).trans asks) answer

theorem limitReached_of_unlimited (h : m.settings.maxSteps = none) (r : Registers) :
    m.limitReached r = none := by
  rw [limitReached, h]
  rfl

theorem limitReached_eq_some_iff {limit : Nat} : m.limitReached r = some limit ↔
    m.settings.maxSteps = some limit ∧ limit ≤ r.report.instructions := by
  simp [limitReached, Option.filter_eq_some_iff]

/-- A step that goes on was not at the limit, and it is counted. -/
theorem running_of_advance (h : m.advance host r s = (.running next, s')) :
    m.limitReached r = none ∧ next.report.instructions = r.report.instructions + 1 := by
  rw [advance_eq_iff] at h
  cases h with
  | silent fetch free intent => exact ⟨free, rfl⟩
  | granted fetch free intent answer => exact ⟨free, rfl⟩

end Machine

end RuleMachine
