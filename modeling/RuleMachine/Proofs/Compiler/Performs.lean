import RuleMachine.Proofs.Compiler.Intents
import RuleMachine.Proofs.Compiler.Placed
import RuleMachine.Proofs.Machine.Ends

set_option autoImplicit false

namespace RuleMachine

/-- The account that a report gives, which leaves out the count of instructions. -/
def Report.account (r : Report) : Account := ⟨r.firedRules, r.actions, r.scripts, r.factsRead⟩

namespace Program

section

variable {σ α : Type} (p : Program) (facts : Facts) (policy : FactPolicy) (host : Host σ)
  (rule : String)

/-- From some registers on, the program does the work of an evaluation in a rule, and `after` says
what the registers are then. -/
inductive Performs (work : Evaluation σ α) (r : Registers) (s : σ)
    (after : α → Registers → Prop) : Prop where
  | done {a : α} {n : Nat} {r' : Registers} {s' : σ}
      (gives : work (r.report.account, s) = .ok a (r'.report.account, s'))
      (steps : (p.machine facts ⟨policy, none⟩).Steps host n r s r' s') (there : after a r')
  | failed {cause : RuntimeCause} {account : Account} {n address : Nat} {s' : σ}
      (gives : work (r.report.account, s) = .error cause (account, s'))
      (ends : (p.machine facts ⟨policy, none⟩).Ends host n r s
        (.error ⟨cause, some address, some rule⟩) s')

end

variable {σ α β : Type} {p : Program} {facts : Facts} {policy : FactPolicy} {host : Host σ}
  {rule : String} {r r₁ next : Registers} {s : σ} {i : Instruction}

theorem performs_pure {a : α} {after : α → Registers → Prop} (h : after a r) :
    p.Performs facts policy host rule (pure a) r s after :=
  .done rfl .zero h

theorem Performs.bind {work : Evaluation σ α} {rest : α → Evaluation σ β}
    {mid : α → Registers → Prop} {after : β → Registers → Prop}
    (h : p.Performs facts policy host rule work r s mid)
    (hrest : ∀ a r' s', mid a r' → p.Performs facts policy host rule (rest a) r' s' after) :
    p.Performs facts policy host rule (work >>= rest) r s after := by
  have hbind : (work >>= rest) (r.report.account, s) =
      EStateM.bind work rest (r.report.account, s) := rfl
  cases h with
  | done gives steps there =>
    rw [EStateM.bind, gives] at hbind
    cases hrest _ _ _ there with
    | done gives' steps' there' => exact .done (hbind.trans gives') (steps.trans steps') there'
    | failed gives' ends' => exact .failed (hbind.trans gives') (steps.ends ends')
  | failed gives ends =>
    rw [EStateM.bind, gives] at hbind
    exact .failed hbind ends

theorem Performs.mono {work : Evaluation σ α} {after after' : α → Registers → Prop}
    (h : p.Performs facts policy host rule work r s after)
    (himp : ∀ a r', after a r' → after' a r') :
    p.Performs facts policy host rule work r s after' := by
  cases h with
  | done gives steps there => exact .done gives steps (himp _ _ there)
  | failed gives ends => exact .failed gives ends

theorem Performs.follow {work : Evaluation σ α} {mid after : α → Registers → Prop}
    (h : p.Performs facts policy host rule work r s mid)
    (hrest : ∀ a r' s', mid a r' → p.Performs facts policy host rule (pure a) r' s' after) :
    p.Performs facts policy host rule work r s after := by
  have hbind := h.bind hrest
  rwa [bind_pure] at hbind

/-- Work that starts after a step that changes neither the account nor the host. -/
theorem Performs.of_advance {work : Evaluation σ α} {after : α → Registers → Prop}
    (first : (p.machine facts ⟨policy, none⟩).advance host r s = (.running r₁, s))
    (account : r₁.report.account = r.report.account)
    (h : p.Performs facts policy host rule work r₁ s after) :
    p.Performs facts policy host rule work r s after := by
  cases h with
  | done gives steps there =>
    rw [account] at gives
    exact .done gives (.succ first steps) there
  | failed gives ends =>
    rw [account] at gives
    exact .failed gives (.succ first ends)

theorem performs_of_failed {work : Evaluation σ α} {after : α → Registers → Prop} {s' : σ}
    {cause : RuntimeCause} {account : Account}
    (gives : work (r.report.account, s) = .error cause (account, s')) (hrule : r.rule = some rule)
    (stops : (p.machine facts ⟨policy, none⟩).advance host r s = (.failed (r.fail cause), s')) :
    p.Performs facts policy host rule work r s after := by
  have hfail : r.fail cause = ⟨cause, some r.address, some rule⟩ := by
    rw [Registers.fail, hrule]
  exact .failed gives (.last stops (congrArg (some ∘ Except.error) hfail))

theorem machine_free (r : Registers) : (p.machine facts ⟨policy, none⟩).limitReached r = none :=
  Machine.limitReached_of_unlimited rfl r

theorem Performs.silent {work : Evaluation σ α} {after : α → Registers → Prop}
    (hi : p[r.address]? = some i)
    (intent : (p.machine facts ⟨policy, none⟩).intent i r = .ok ⟨none, next⟩)
    (account : next.report.account = r.report.account)
    (h : p.Performs facts policy host rule work
      { next with report.instructions := r.report.instructions + 1 } s after) :
    p.Performs facts policy host rule work r s after := by
  rw [← machine_getElem? p facts ⟨policy, none⟩] at hi
  exact .of_advance (Machine.advance_eq_iff.2 (.silent hi (machine_free r) intent)) account h

theorem performs_ask {call : HostCall} {change : Account → Account}
    {after : Unit → Registers → Prop} (hi : p[r.address]? = some i)
    (intent : (p.machine facts ⟨policy, none⟩).intent i r = .ok ⟨some call, next⟩)
    (hrule : r.rule = some rule) (account : next.report.account = change r.report.account)
    (h : after () { next with report.instructions := r.report.instructions + 1 }) :
    p.Performs facts policy host rule (Evaluation.ask host call change) r s after := by
  rw [← machine_getElem? p facts ⟨policy, none⟩] at hi
  cases hanswer : host.perform call s with
  | ok u s' =>
    have hgo := Machine.advance_eq_iff.2 (.granted hi (machine_free r) intent hanswer)
    refine .done ?_ (.one hgo) h
    rw [Evaluation.ask, hanswer, ← account]
    rfl
  | error e s' =>
    have hstop := Machine.advance_eq_iff.2 (.refused hi (machine_free r) intent hanswer)
    have hgives : Evaluation.ask host call change (r.report.account, s) =
        .error (.host e) (r.report.account, s') := by
      rw [Evaluation.ask, hanswer]
    exact performs_of_failed hgives hrule hstop

theorem performs_comparison {operator fact : String} {literal : Scalar} {op : Opcode}
    {after : Bool → Registers → Prop} (hi : p[r.address]? = some i)
    (select : Opcode.select operator literal = .ok op)
    (built : Instruction.comparison op fact literal = .ok i) (hrule : r.rule = some rule)
    (h : ∀ holds, after holds { r with
      address := r.address + 1
      flag := holds
      report.factsRead := r.report.factsRead ++ [fact]
      report.instructions := r.report.instructions + 1 }) :
    p.Performs facts policy host rule
      ((Condition.leaf fact operator literal).evaluate facts policy) r s after := by
  rw [← machine_getElem? p facts ⟨policy, none⟩] at hi
  have hintent := Machine.intent_of_comparison (m := p.machine facts ⟨policy, none⟩) (r := r)
    select built
  change _ = Except.map _ (compareFact facts policy fact operator literal) at hintent
  cases hcompare : compareFact facts policy fact operator literal with
  | ok holds =>
    rw [hcompare] at hintent
    have hgo : Machine.Advances _ host r s _ := .silent hi (machine_free r) hintent
    refine .done ?_ (.one (Machine.advance_eq_iff.2 hgo)) (h holds)
    rw [Condition.evaluate, hcompare]
    rfl
  | error cause =>
    rw [hcompare] at hintent
    have hstop : Machine.Advances _ host r s _ := .stuck hi (machine_free r) hintent
    have hgives : (Condition.leaf fact operator literal).evaluate facts policy
        (r.report.account, s) = .error cause
          ({ r.report.account with factsRead := r.report.factsRead ++ [fact] }, s) := by
      rw [Condition.evaluate, hcompare]
      rfl
    exact performs_of_failed hgives hrule (Machine.advance_eq_iff.2 hstop)

end Program

end RuleMachine
