import RuleMachine.Proofs.Compact.Places
import RuleMachine.Proofs.Machine.Causes
import RuleMachine.Proofs.Machine.Log
/-!
Runs without marks. A program and its compact form take the same steps, but that the program also
steps over its marks: at a mark the compact program waits, and elsewhere both do the same at
addresses that correspond.
-/

set_option autoImplicit false

namespace RuleMachine

def Registers.compacted (p : Program) (count : Nat) (r : Registers) : Registers :=
  r.moved (p.compactIndex r.address) count

def Intent.compacted (p : Program) (count : Nat) (intent : Intent) : Intent :=
  { intent with next := intent.next.compacted p count }

/-- A result of the compact program: its own count of instructions, and the place of the address
where the run failed. -/
def compactResult (p : Program) (count : Nat) :
    Except RuntimeError Report → Except RuntimeError Report
  | .ok report => .ok { report with instructions := count }
  | .error e => .error { e with address := e.address.map p.compactIndex }

def Progress.compacted (p : Program) (count : Nat) : Progress → Progress
  | .running next => .running (next.compacted p (count + 1))
  | .finished report => .finished { report with instructions := count }
  | .failed e => .failed { e with address := e.address.map p.compactIndex }

/-- A limit on steps cut the run off. -/
def CutOff (result : Except RuntimeError Report) : Prop :=
  ∃ e limit, result = .error e ∧ e.cause = .stepLimitExceeded limit

theorem Progress.result?_compacted (p : Program) (count : Nat) (progress : Progress) :
    (progress.compacted p count).result? = progress.result?.map (compactResult p count) := by
  cases progress <;> rfl

namespace Program

variable {p q : Program} {facts : Facts} {settings : RunSettings} {i j : Instruction}
  {r : Registers} {count : Nat}

theorem intent_compact (h : p.compactInstruction r.address i = .ok j)
    (hi : p[r.address]? = some i) (hm : i.isMark = false) (hq : p.compact = .ok q) :
    (q.machine facts settings).intent j (r.compacted p count) =
      ((p.machine facts settings).intent i r).map (Intent.compacted p count) := by
  cases hj : i.opcode.isJump with
  | false =>
    rw [compactInstruction_of_not_jump hj] at h
    cases h
    have hmoved := Machine.intent_moved (m := p.machine facts settings) (r := r) hj
      (q.machine facts settings).program (p.compactIndex r.address) count
    refine hmoved.trans ?_
    cases ho : (p.machine facts settings).intent i r with
    | error cause => rfl
    | ok intent =>
      have ha := Machine.next_address_of_not_jump hj ho
      have hs := compactIndex_succ_of_not_mark hi hm
      simp only [Except.map, Intent.moved, Intent.compacted, Registers.compacted, ha, hs]
  | true =>
    obtain ⟨offset, target, distance, ho, ht, hl, rfl, hd⟩ := compactInstruction_of_jump h hj
    have hs := compactIndex_succ_of_not_mark hi hm
    have hp : (p.machine facts settings).land r.address offset = .ok target :=
      Machine.land_eq_ok_iff.2 ⟨ht, hl⟩
    have hland : (q.machine facts settings).land (p.compactIndex r.address) distance =
        .ok (p.compactIndex target) := by
      refine Machine.land_eq_ok_iff.2 ⟨by omega, ?_⟩
      rw [machine_size, length_compact hq]
      exact compactIndex_mono hl
    have hjump : (Instruction.jump i.opcode distance).jumpOffset? = some distance :=
      Instruction.jumpOffset?_jump hj distance
    have hop : (Instruction.jump i.opcode distance).opcode.isJump = true := hj
    rw [Machine.intent_of_jump hj ho, Machine.intent_of_jump hop hjump]
    have haddr : (r.compacted p count).address = p.compactIndex r.address := rfl
    have htakes : Machine.takes (.jump i.opcode distance) (r.compacted p count) =
        Machine.takes i r := rfl
    rw [htakes, haddr, hland, hp]
    cases Machine.takes i r with
    | true => rfl
    | false =>
      simp only [Bool.false_eq_true, if_false, Except.map, Intent.compacted, Registers.compacted,
        Registers.moved, hs]

variable {σ : Type} {host : Host σ} {s s' : σ} {progress : Progress}

theorem advance_of_mark (host : Host σ) (s : σ) (count : Nat) (hi : p[r.address]? = some i)
    (hm : i.isMark = true) (hl : (p.machine facts settings).limitReached r = none) :
    ∃ r₁, (p.machine facts settings).advance host r s = (.running r₁, s) ∧
      r₁.address = r.address + 1 ∧ r₁.report.instructions = r.report.instructions + 1 ∧
      r₁.compacted p count = r.compacted p count := by
  have hop : i.opcode = .label := by simpa [Instruction.isMark] using hm
  have hf : (p.machine facts settings).program[r.address]? = some i := by
    rw [machine_getElem?, hi]
  refine ⟨_, Machine.advance_eq_iff.2 (.silent hf hl (Machine.intent_of_label hop)), rfl, rfl, ?_⟩
  simp only [Registers.compacted, Registers.moved, compactIndex_succ_of_mark hi hm]

theorem limitReached_compacted (hcount : count ≤ r.report.instructions)
    (h : (p.machine facts settings).limitReached r = none) :
    (q.machine facts settings).limitReached (r.compacted p count) = none := by
  cases hl : (q.machine facts settings).limitReached (r.compacted p count) with
  | none => rfl
  | some limit =>
    obtain ⟨hs, hle⟩ := Machine.limitReached_eq_some_iff.1 hl
    have hp : (p.machine facts settings).limitReached r = some limit :=
      Machine.limitReached_eq_some_iff.2 ⟨hs, Nat.le_trans hle hcount⟩
    rw [h] at hp
    cases hp

theorem intent_at_place (count : Nat) (hq : p.compact = .ok q) {out : Except RuntimeCause Intent}
    (hm : ∀ i, p[r.address]? = some i → i.isMark = false)
    (fetch : (p.machine facts settings).program[r.address]? = some i)
    (intent : (p.machine facts settings).intent i r = out) :
    ∃ j, (q.machine facts settings).program[(r.compacted p count).address]? = some j ∧
      (q.machine facts settings).intent j (r.compacted p count) =
        out.map (Intent.compacted p count) := by
  rw [machine_getElem?] at fetch
  obtain ⟨j, hj, hqj⟩ := getElem?_compact hq fetch (hm _ fetch)
  refine ⟨j, by rw [machine_getElem?]; exact hqj, ?_⟩
  rw [intent_compact hj fetch (hm _ fetch) hq, intent]

/-- Away from marks a step that does not end at the limit is also a step of the compact program. -/
theorem advance_compacted (hq : p.compact = .ok q)
    (hm : ∀ i, p[r.address]? = some i → i.isMark = false)
    (hcount : count ≤ r.report.instructions)
    (h : (p.machine facts settings).advance host r s = (progress, s'))
    (hlimit : ∀ result, progress.result? = some result → ¬ CutOff result) :
    (q.machine facts settings).advance host (r.compacted p count) s =
      (progress.compacted p count, s') := by
  rw [Machine.advance_eq_iff] at h ⊢
  cases h with
  | finished fetch =>
    rw [machine_getElem?, List.getElem?_eq_none_iff] at fetch
    refine .finished ?_
    rw [machine_getElem?, List.getElem?_eq_none_iff, length_compact hq,
      ← compactIndex_of_length_le fetch]
    exact Nat.le_refl _
  | exhausted fetch limited => exact absurd ⟨_, _, rfl, rfl⟩ (hlimit _ rfl)
  | stuck fetch free intent =>
    obtain ⟨j, hfetch, hj⟩ := intent_at_place count hq hm fetch intent
    exact .stuck hfetch (limitReached_compacted hcount free) hj
  | silent fetch free intent =>
    obtain ⟨j, hfetch, hj⟩ := intent_at_place count hq hm fetch intent
    exact .silent hfetch (limitReached_compacted hcount free) hj
  | granted fetch free intent answer =>
    obtain ⟨j, hfetch, hj⟩ := intent_at_place count hq hm fetch intent
    exact .granted hfetch (limitReached_compacted hcount free) hj answer
  | refused fetch free intent answer =>
    obtain ⟨j, hfetch, hj⟩ := intent_at_place count hq hm fetch intent
    exact .refused hfetch (limitReached_compacted hcount free) hj answer

theorem not_mark_of_last {result : Except RuntimeError Report}
    (final : (p.machine facts settings).advance host r s = (progress, s'))
    (is : progress.result? = some result) (hlimit : ¬ CutOff result)
    (hi : p[r.address]? = some i) : i.isMark = false := by
  cases hmark : i.isMark with
  | false => rfl
  | true =>
    exfalso
    cases hl : (p.machine facts settings).limitReached r with
    | none =>
      obtain ⟨r₁, ha, _⟩ := advance_of_mark host s 0 hi hmark hl
      obtain ⟨rfl, _⟩ := Prod.mk.inj (final.symm.trans ha)
      cases is
    | some limit =>
      have hf : (p.machine facts settings).program[r.address]? = some i := by
        rw [machine_getElem?, hi]
      have ha : Machine.Advances _ host r s _ := .exhausted hf hl
      obtain ⟨rfl, _⟩ := Prod.mk.inj (final.symm.trans (Machine.advance_eq_iff.2 ha))
      exact hlimit ⟨_, limit, (Option.some.inj is).symm, rfl⟩

/-- A run that the limit does not cut off is a run of the compact program with no more
instructions. -/
theorem ends_compact {n : Nat} {result : Except RuntimeError Report} (hq : p.compact = .ok q)
    (h : (p.machine facts settings).Ends host n r s result s')
    (hcount : count ≤ r.report.instructions)
    (hlimit : ¬ CutOff result) :
    ∃ k, k ≤ n ∧ (q.machine facts settings).Ends host k (r.compacted p count) s
      (compactResult p (count + k) result) s' := by
  induction h generalizing count with
  | @last r s s' progress result final is =>
    have hm : ∀ i, p[r.address]? = some i → i.isMark = false := fun i hi =>
      not_mark_of_last final is hlimit hi
    have ha := advance_compacted hq hm hcount final fun x hx => by
      rw [is] at hx
      cases hx
      exact hlimit
    refine ⟨0, Nat.le_refl 0, .last ha ?_⟩
    rw [Progress.result?_compacted, is]
    rfl
  | @succ n r r₁ s s₁ s₂ result first rest ih =>
    obtain ⟨hfree, hnext⟩ := Machine.running_of_advance first
    by_cases hmark : ∃ i, p[r.address]? = some i ∧ i.isMark = true
    · obtain ⟨i, hi, hm⟩ := hmark
      obtain ⟨r', ha, _, _, hr⟩ := advance_of_mark host s count hi hm hfree
      obtain ⟨hr', rfl⟩ := Prod.mk.inj (first.symm.trans ha)
      cases hr'
      have hc : count ≤ r₁.report.instructions := by omega
      obtain ⟨k, hk, he⟩ := ih hc hlimit
      rw [hr] at he
      exact ⟨k, by omega, he⟩
    · have hm : ∀ i, p[r.address]? = some i → i.isMark = false := by
        intro i hi
        exact Bool.eq_false_iff.2 fun hm => hmark ⟨i, hi, hm⟩
      have ha := advance_compacted hq hm hcount first fun _ is => by cases is
      have hc : count + 1 ≤ r₁.report.instructions := by omega
      obtain ⟨k, hk, he⟩ := ih hc hlimit
      rw [Nat.add_assoc, Nat.add_comm 1 k] at he
      exact ⟨k + 1, by omega, .succ ha he⟩

theorem not_cutOff_of_unlimited (hs : settings.maxSteps = none)
    (h : (p.machine facts settings).advance host r s = (progress, s'))
    {result : Except RuntimeError Report} (is : progress.result? = some result) :
    ¬ CutOff result := by
  intro hc
  obtain ⟨e, limit, rfl, he⟩ := hc
  rw [Machine.advance_eq_iff] at h
  cases h with
  | finished fetch => cases is
  | exhausted fetch limited =>
    rw [Machine.limitReached_of_unlimited hs] at limited
    cases limited
  | stuck fetch free intent =>
    cases is
    cases he
    cases Machine.fails_of_intent intent with
    | overFact refused => exact refused.2
  | silent fetch free intent => cases is
  | granted fetch free intent answer => cases is
  | refused fetch free intent answer =>
    cases is
    cases he

theorem not_cutOff_of_ends {n : Nat} {result : Except RuntimeError Report}
    (hs : settings.maxSteps = none)
    (h : (p.machine facts settings).Ends host n r s result s') : ¬ CutOff result := by
  induction h with
  | last final is => exact not_cutOff_of_unlimited hs final is
  | succ first rest ih => exact ih

theorem steps_over_marks (host : Host σ) (s : σ) (count : Nat) (hs : settings.maxSteps = none)
    (r : Registers) : ∃ n r', (p.machine facts settings).Steps host n r s r' s ∧
      (∀ i, p[r'.address]? = some i → i.isMark = false) ∧
      r.report.instructions ≤ r'.report.instructions ∧
      r'.compacted p count = r.compacted p count := by
  -- The marks that may lie ahead end with the program.
  induction hd : p.length - r.address generalizing r with
  | zero =>
    refine ⟨0, r, .zero, fun i hi => ?_, Nat.le_refl _, rfl⟩
    have hlt := (List.getElem?_eq_some_iff.1 hi).1
    omega
  | succ d ih =>
    by_cases hmark : ∃ i, p[r.address]? = some i ∧ i.isMark = true
    · obtain ⟨i, hi, hm⟩ := hmark
      obtain ⟨r₁, ha, haddr, hn, hr⟩ := advance_of_mark host s count hi hm
        (Machine.limitReached_of_unlimited hs r)
      obtain ⟨n, r', hsteps, hfree, hle, hr'⟩ := ih r₁ (by omega)
      exact ⟨n + 1, r', .succ ha hsteps, hfree, by omega, hr'.trans hr⟩
    · refine ⟨0, r, .zero, fun i hi => ?_, Nat.le_refl _, rfl⟩
      exact Bool.eq_false_iff.2 fun hm => hmark ⟨i, hi, hm⟩

/-- Without a limit, a step of the compact program is a step of the program once it has gone over
the marks in front of it. -/
theorem advance_of_compacted (hq : p.compact = .ok q) (hs : settings.maxSteps = none)
    (hcount : count ≤ r.report.instructions)
    (h : (q.machine facts settings).advance host (r.compacted p count) s = (progress, s')) :
    ∃ n r' progress', (p.machine facts settings).Steps host n r s r' s ∧
      count ≤ r'.report.instructions ∧
      (p.machine facts settings).advance host r' s = (progress', s') ∧
      progress'.compacted p count = progress := by
  obtain ⟨n, r', hsteps, hm, hle, hr⟩ := steps_over_marks host s count hs r
  cases hp : (p.machine facts settings).advance host r' s with
  | mk progress' s'' =>
    have hle' := Nat.le_trans hcount hle
    have ha := advance_compacted hq hm hle' hp fun _ => not_cutOff_of_unlimited hs hp
    rw [hr, h] at ha
    obtain ⟨hprogress, rfl⟩ := Prod.mk.inj ha
    exact ⟨n, r', progress', hsteps, hle', hp, hprogress.symm⟩

theorem ends_of_compact {k : Nat} {t : Registers} {result : Except RuntimeError Report}
    (hq : p.compact = .ok q) (hs : settings.maxSteps = none)
    (h : (q.machine facts settings).Ends host k t s result s') (ht : t = r.compacted p count)
    (hcount : count ≤ r.report.instructions) :
    ∃ n result, (p.machine facts settings).Ends host n r s result s' := by
  induction h generalizing r count with
  | last final is =>
    rw [ht] at final
    obtain ⟨n, r', progress', hsteps, _, hp, rfl⟩ := advance_of_compacted hq hs hcount final
    rw [Progress.result?_compacted, Option.map_eq_some_iff] at is
    obtain ⟨result', is', _⟩ := is
    exact ⟨n + 0, result', hsteps.ends (.last hp is')⟩
  | @succ k t t₁ s s₁ s₂ result first rest ih =>
    rw [ht] at first
    obtain ⟨n, r', progress', hsteps, hle, hp, hprogress⟩ :=
      advance_of_compacted hq hs hcount first
    cases progress' with
    | running r₁ =>
      have hn := (Machine.running_of_advance hp).2
      obtain ⟨n', result', he⟩ := ih (Progress.running.inj hprogress).symm (by omega)
      exact ⟨n + (n' + 1), result', hsteps.ends (.succ hp he)⟩
    | finished report => cases hprogress
    | failed e => cases hprogress

end Program

end RuleMachine
