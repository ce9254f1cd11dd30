import RuleMachine.Proofs.Compact.Runs
import RuleMachine.Proofs.Compiler.Performs
import RuleMachine.Proofs.Compiler.Stored
/-!
Compiled programs do what the rules say. The code of a condition leaves for one of its two labels
as the condition holds or not, and from there the programs of rules follow the rules.
-/

set_option autoImplicit false

namespace RuleMachine

structure Registers.At (rule : String) (fired : Bool) (address : Nat) (r : Registers) : Prop where
  address : r.address = address
  rule : r.rule = some rule
  fired : r.ruleFired = fired

def Clause.evaluate {σ : Type} (facts : Facts) (policy : FactPolicy) : Clause → Evaluation σ Bool
  | .one c => c.evaluate facts policy
  | .all cs => evaluateAll facts policy cs
  | .any cs => evaluateAny facts policy cs

namespace Program

variable {σ : Type} {p : Program} {facts : Facts} {policy : FactPolicy} {host : Host σ}
  {rule : String} {r : Registers} {s : σ} {place : String → Option Nat} {l : Label}
  {a target other : Nat} {fired : Bool}

theorem performs_move {α : Type} {work : Evaluation σ α} {after : α → Registers → Prop}
    {i : Instruction} {next : Registers} (hi : p[r.address]? = some i)
    (intent : (p.machine facts ⟨policy, none⟩).intent i r = .ok ⟨none, next⟩)
    (account : next.report.account = r.report.account) (hnext : next.At rule fired a)
    (h : ∀ r', r'.At rule fired a → p.Performs facts policy host rule work r' s after) :
    p.Performs facts policy host rule work r s after :=
  .silent hi intent account (h _ ⟨hnext.address, hnext.rule, hnext.fired⟩)

theorem performs_mark {α : Type} {work : Evaluation σ α} {after : α → Registers → Prop}
    (hmark : Assembly.MarkAt place p l a) (hr : r.At rule fired a)
    (h : ∀ r', r'.At rule fired (a + 1) → p.Performs facts policy host rule work r' s after) :
    p.Performs facts policy host rule work r s after := by
  obtain ⟨⟨i, hi, hop⟩, _⟩ := hmark
  rw [← hr.address] at hi
  exact performs_move hi (Machine.intent_of_label hop) rfl
    ⟨congrArg (· + 1) hr.address, hr.rule, hr.fired⟩ h

theorem performs_jump {α : Type} {work : Evaluation σ α} {after : α → Registers → Prop}
    {op : Opcode} {rest : Assembly} (hj : op.isJump = true)
    (hline : Assembly.Placed place p a (.jump op l :: rest))
    (hmark : Assembly.MarkAt place p l target) (hr : r.At rule fired a)
    (h : ∀ r', r'.At rule fired (if r.flag == (op == .jumpIfTrue) then target else a + 1) →
      r'.flag = r.flag → p.Performs facts policy host rule work r' s after) :
    p.Performs facts policy host rule work r s after := by
  obtain ⟨⟨distance, target', hi, hplace, hdistance⟩, _⟩ := hline
  rw [hmark.2] at hplace
  cases hplace
  have ha := hr.address
  have hlt := hmark.lt_length
  have hland : (p.machine facts ⟨policy, none⟩).land r.address distance = .ok target := by
    refine Machine.land_eq_ok_iff.2 ⟨by omega, ?_⟩
    rw [machine_size]
    omega
  have hintent := Machine.intent_of_jump (m := p.machine facts ⟨policy, none⟩) (r := r)
    (i := .jump op distance) hj (Instruction.jumpOffset?_jump hj distance)
  rw [hland] at hintent
  rw [← ha] at hi
  cases ht : Machine.takes (.jump op distance) r with
  | true =>
    rw [ht] at hintent
    have hif : r.flag == (op == .jumpIfTrue) := ht
    rw [if_pos hif] at h
    exact .silent hi hintent rfl (h _ ⟨rfl, hr.rule, hr.fired⟩ rfl)
  | false =>
    rw [ht] at hintent
    have hif : (r.flag == (op == .jumpIfTrue)) = false := ht
    rw [hif] at h
    exact .silent hi hintent rfl (h _ ⟨congrArg (· + 1) ha, hr.rule, hr.fired⟩ rfl)

/-- A piece of code has decided something and has left for one of two addresses. -/
def Left (rule : String) (target other : Nat) (holds : Bool) (r : Registers) : Prop :=
  r.At rule false (if holds then target else other)

variable {first second : Evaluation σ Bool} {middle : Nat}

theorem performs_both (hmark : Assembly.MarkAt place p l middle)
    (hfirst : p.Performs facts policy host rule first r s (Left rule middle other))
    (hsecond : ∀ r' s', r'.At rule false (middle + 1) →
      p.Performs facts policy host rule second r' s' (Left rule target other)) :
    p.Performs facts policy host rule (do if ← first then second else return false) r s
      (Left rule target other) := by
  refine hfirst.bind fun holds r' s' hleft => ?_
  cases holds with
  | true => exact performs_mark hmark hleft fun r'' hr => hsecond r'' s' hr
  | false => exact performs_pure hleft

theorem performs_either (hmark : Assembly.MarkAt place p l middle)
    (hfirst : p.Performs facts policy host rule first r s (Left rule target middle))
    (hsecond : ∀ r' s', r'.At rule false (middle + 1) →
      p.Performs facts policy host rule second r' s' (Left rule target other)) :
    p.Performs facts policy host rule (do if ← first then return true else second) r s
      (Left rule target other) := by
  refine hfirst.bind fun holds r' s' hleft => ?_
  cases holds with
  | true => exact performs_pure hleft
  | false => exact performs_mark hmark hleft fun r'' hr => hsecond r'' s' hr

theorem performs_leaf {success failure : Label} {fact operator : String} {literal : Scalar}
    {op : Opcode} {i : Instruction} (select : Opcode.select operator literal = .ok op)
    (test : Instruction.comparison op fact literal = .ok i)
    (hp : Assembly.Placed place p a
      [.instruction i, .jump .jumpIfTrue success, .jump .jumpIfFalse failure])
    (hs : Assembly.MarkAt place p success target) (hf : Assembly.MarkAt place p failure other)
    (hr : r.At rule false a) :
    p.Performs facts policy host rule
      ((Condition.leaf fact operator literal).evaluate facts policy) r s
      (Left rule target other) := by
  have hi : p[r.address]? = some i := by rw [hr.address, hp.1]
  have hcompare : p.Performs facts policy host rule
      ((Condition.leaf fact operator literal).evaluate facts policy) r s
      fun holds r' => r'.At rule false (a + 1) ∧ r'.flag = holds :=
    performs_comparison hi select test hr.rule fun holds =>
      ⟨⟨congrArg (· + 1) hr.address, hr.rule, hr.fired⟩, rfl⟩
  refine hcompare.follow fun holds r₁ s₁ hmid => ?_
  obtain ⟨hr₁, hflag₁⟩ := hmid
  refine performs_jump rfl hp.2.2 hs hr₁ fun r₂ hr₂ hflag₂ => ?_
  rw [hflag₁] at hr₂ hflag₂
  cases holds with
  | true => exact performs_pure hr₂
  | false =>
    refine performs_jump rfl hp.2.2.2 hf hr₂ fun r₃ hr₃ _ => ?_
    rw [hflag₂] at hr₃
    exact performs_pure hr₃

/-- The code of a clause evaluates the clause and leaves for the label that it should. -/
theorem performs_lowered {success failure : Label} {clause : Clause} {code : Assembly}
    (h : Lowered success failure clause code) (hp : code.Placed place p a)
    (hs : Assembly.MarkAt place p success target) (hf : Assembly.MarkAt place p failure other)
    (hr : r.At rule false a) :
    p.Performs facts policy host rule (clause.evaluate facts policy) r s
      (Left rule target other) := by
  induction h generalizing a target other r s with
  | leaf select test => exact performs_leaf select test hp hs hf hr
  | allOnly first ih =>
    refine (ih hp hs hf hr).bind fun holds r' s' hleft => ?_
    cases holds <;> exact performs_pure hleft
  | anyOnly second ih => exact ih hp hs hf hr
  | both first mark second ihFirst ihSecond =>
    obtain ⟨hfront, hmark, hback⟩ := hp.cut mark
    exact performs_both hmark (ihFirst hfront hmark hf hr) fun r' s' hr' => ihSecond hback hs hf hr'
  | lastOfAll only ih =>
    refine (ih hp hs hf hr).bind fun holds r' s' hleft => ?_
    cases holds <;> exact performs_pure hleft
  | firstOfAll first mark more ihFirst ihMore =>
    obtain ⟨hfront, hmark, hback⟩ := hp.cut mark
    exact performs_both hmark (ihFirst hfront hmark hf hr) fun r' s' hr' => ihMore hback hs hf hr'
  | lastOfAny only ih =>
    refine (ih hp hs hf hr).bind fun holds r' s' hleft => ?_
    cases holds <;> exact performs_pure hleft
  | firstOfAny first mark more ihFirst ihMore =>
    obtain ⟨hfront, hmark, hback⟩ := hp.cut mark
    exact performs_either hmark (ihFirst hfront hs hmark hr) fun r' s' hr' =>
      ihMore hback hs hf hr'

theorem performs_forM {β : Type} {work : β → Evaluation σ Unit}
    {build : β → Except CompileCause Instruction} {l : List β} {is : List Instruction}
    (built : l.mapM build = .ok is) (hp : Assembly.Placed place p a (is.map .instruction))
    (hr : r.At rule fired a)
    (step : ∀ b i a r s, build b = .ok i → p[r.address]? = some i → r.At rule fired a →
      p.Performs facts policy host rule (work b) r s fun _ r' => r'.At rule fired (a + 1)) :
    p.Performs facts policy host rule (l.forM work) r s
      fun _ r' => r'.At rule fired (a + is.length) := by
  induction l generalizing is a r s with
  | nil =>
    cases built
    exact performs_pure hr
  | cons b l ih =>
    obtain ⟨i, more, hb, hmore, rfl⟩ := Lowering.mapM_cons_eq_ok_iff.1 built
    have hi : p[r.address]? = some i := by rw [hr.address, hp.1]
    refine (step b i a r s hb hi hr).bind fun _ r' s' hr' => ?_
    have hrest := ih (s := s') hmore hp.2.2 hr'
    rwa [Nat.add_assoc, Nat.add_comm 1] at hrest

section Actions

variable {act : Action} {i : Instruction}

theorem intent_of_instruction (m : Machine) (host : Host σ) (built : act.instruction = .ok i)
    (hrule : r.rule = some rule) : ∃ call change report,
      act.perform host rule = Evaluation.ask host call change ∧
      m.intent i r = .ok ⟨some call,
        { r with address := r.address + 1, report := report }.fire⟩ ∧
      report.account = change r.report.account := by
  unfold Action.instruction at built
  unfold Action.perform
  split at built
  · rename_i hkind
    rw [if_pos hkind, Machine.intent_of_scriptCall built, hrule]
    exact ⟨_, _, _, rfl, rfl, rfl⟩
  · rename_i hkind
    rw [if_neg hkind, Machine.intent_of_action built, hrule]
    exact ⟨_, _, _, rfl, rfl, rfl⟩

theorem performs_action (built : act.instruction = .ok i) (hi : p[r.address]? = some i)
    (hr : r.At rule true a) : p.Performs facts policy host rule (act.perform host rule) r s
      fun _ r' => r'.At rule true (a + 1) := by
  obtain ⟨call, change, report, hask, hintent, haccount⟩ :=
    intent_of_instruction (p.machine facts ⟨policy, none⟩) host built hr.rule
  rw [Registers.fire, if_pos hr.fired] at hintent
  rw [hask]
  exact performs_ask hi hintent hr.rule haccount
    ⟨congrArg (· + 1) hr.address, hr.rule, hr.fired⟩

theorem ask_bind_note (call : HostCall) (f g : Account → Account) :
    (do
      Evaluation.ask host call f
      Evaluation.note g) = Evaluation.ask host call fun account => g (f account) := by
  funext state
  obtain ⟨account, s⟩ := state
  change EStateM.bind (Evaluation.ask host call f) (fun _ => Evaluation.note g) _ = _
  unfold EStateM.bind Evaluation.ask
  dsimp only
  cases host.perform call s <;> rfl

theorem performs_firstAction (built : act.instruction = .ok i) (hi : p[r.address]? = some i)
    (hr : r.At rule false a) : p.Performs facts policy host rule
      (do
        act.perform host rule
        Evaluation.note fun account =>
          { account with firedRules := account.firedRules ++ [rule] }) r s
      fun _ r' => r'.At rule true (a + 1) := by
  obtain ⟨call, change, report, hask, hintent, haccount⟩ :=
    intent_of_instruction (p.machine facts ⟨policy, none⟩) host built hr.rule
  rw [Registers.fire, hr.fired, if_neg Bool.false_ne_true, hr.rule] at hintent
  rw [hask, ask_bind_note]
  refine performs_ask hi hintent hr.rule ?_ ⟨congrArg (· + 1) hr.address, rfl, rfl⟩
  rw [← haccount]
  rfl

theorem performs_act {actions : List Action} {is : List Instruction}
    (built : actions.mapM Action.instruction = .ok is)
    (hp : Assembly.Placed place p a (is.map .instruction)) (hr : r.At rule false a) :
    p.Performs facts policy host rule (Rule.act host rule actions) r s
      fun _ r' => ∃ fired, r'.At rule fired (a + is.length) := by
  cases actions with
  | nil =>
    cases built
    exact performs_pure ⟨false, hr⟩
  | cons first rest =>
    obtain ⟨i, more, hfirst, hmore, rfl⟩ := Lowering.mapM_cons_eq_ok_iff.1 built
    have hi : p[r.address]? = some i := by rw [hr.address, hp.1]
    rw [Rule.act, ← bind_assoc]
    refine (performs_firstAction hfirst hi hr).bind fun _ r' s' hr' => ?_
    refine (performs_forM hmore hp.2.2 hr' fun _ _ _ _ _ => performs_action).mono
      fun _ r'' hr'' => ⟨true, ?_⟩
    rwa [Nat.add_assoc, Nat.add_comm 1] at hr''

end Actions

theorem performs_leave (hmark : Assembly.MarkAt place p l a)
    (hend : p[a + 1]? = some Instruction.ruleEnd) (hr : r.At rule fired a) :
    p.Performs facts policy host rule (pure ()) r s fun _ r' => r'.address = a + 2 := by
  refine performs_mark hmark hr fun r' hr' => ?_
  rw [← hr'.address] at hend
  exact .silent hend Machine.intent_of_ruleEnd rfl
    (performs_pure (congrArg (· + 1) hr'.address))

/-- The program of a rule, wherever it stands, does what the rule says. -/
theorem performs_rule {rl : Rule} {code : Assembly} (h : rl.Lowered code)
    (hp : code.Placed place p a) (hr : r.address = a) :
    p.Performs facts policy host rl.name (rl.evaluate facts policy host) r s
      fun _ r' => r'.address = a + code.length := by
  cases h with
  | @intro start priority bodyMark skipMark scripts actions body skip condition starts ranks defines
      decides enters acts leaves =>
    obtain ⟨hhead, hcondition, hbody, hactions, hskip, hend⟩ := hp.frame enters leaves
    obtain ⟨hstart, _, hpriority, _, hscripts⟩ := hhead
    have hlength : a + (start :: priority :: scripts).length = a + 1 + 1 + scripts.length := by
      simp only [List.length_cons]
      omega
    rw [hlength] at hcondition hbody hactions hskip hend
    rw [← hr] at hstart
    refine performs_move hstart (Machine.intent_of_ruleStart starts) rfl
      ⟨congrArg (· + 1) hr, rfl, rfl⟩ fun r₁ hr₁ => ?_
    rw [← hr₁.address] at hpriority
    refine performs_move hpriority (Machine.intent_of_priority ranks) rfl
      ⟨congrArg (· + 1) hr₁.address, hr₁.rule, hr₁.fired⟩ fun r₂ hr₂ => ?_
    refine (performs_forM defines hscripts hr₂ ?_).bind fun _ r₃ s₃ hr₃ => ?_
    · intro entry i b r' s' built hi hr'
      have hintent := Machine.intent_of_scriptDefinition (m := p.machine facts ⟨policy, none⟩)
        (r := r') built
      rw [hr'.rule] at hintent
      exact performs_ask hi hintent hr'.rule rfl
        ⟨congrArg (· + 1) hr'.address, rfl, hr'.fired⟩
    have hleave : ∀ {fired : Bool} {r' : Registers} {s' : σ},
        r'.At rl.name fired (a + 1 + 1 + scripts.length + condition.length + 1 + actions.length) →
        p.Performs facts policy host rl.name (pure ()) r' s' fun _ r'' => r''.address =
          a + ((start :: priority :: scripts).map CodeLine.instruction ++ condition ++
            (bodyMark :: actions ++ [skipMark, Instruction.ruleEnd]).map
              CodeLine.instruction).length := by
      intro fired r' s' hr'
      refine (performs_leave hskip hend hr').mono fun _ r'' hr'' => ?_
      simp only [hr'', List.length_append, List.length_map, List.length_cons, List.length_nil]
      omega
    refine (performs_lowered decides hcondition hbody hskip hr₃).bind fun holds r₄ s₄ hr₄ => ?_
    cases holds with
    | true =>
      refine performs_mark hbody hr₄ fun r₅ hr₅ => ?_
      refine (performs_act acts hactions hr₅).follow fun _ r₆ s₆ hact => ?_
      obtain ⟨fired, hr₆⟩ := hact
      exact hleave hr₆
    | false => exact hleave hr₄

end Program

def outcome : Except RuntimeError Report → Except (RuntimeCause × Option String) Account
  | .ok report => .ok report.account
  | .error e => .error (e.cause, e.rule)

theorem outcome_compactResult (p : Program) (count : Nat) (result : Except RuntimeError Report) :
    outcome (compactResult p count result) = outcome result := by
  cases result <;> rfl

/-- The program of rules, from the place of the first on, does what the rules say. -/
theorem Program.ends_of_placed {σ : Type} {p : Program} {facts : Facts} {policy : FactPolicy}
    {host : Host σ} {rules : Ruleset} {a : Nat} {r : Registers} {s : σ} (h : rules.Placed p a)
    (hr : r.address = a) : ∃ n result final,
      (p.machine facts ⟨policy, none⟩).Ends host n r s result final ∧
      (outcome result, final) = rules.evaluate facts policy host (r.report.account, s) := by
  induction rules generalizing a r s with
  | nil =>
    have hend : (p.machine facts ⟨policy, none⟩).program[r.address]? = none := by
      rw [machine_getElem?, List.getElem?_eq_none_iff, hr]
      exact Nat.le_of_eq (show a = p.length from h).symm
    exact ⟨0, .ok r.report, s, .last (Machine.advance_eq_iff.2 (.finished hend)) rfl, rfl⟩
  | cons rl rest ih =>
    obtain ⟨place, code, lowered, hcode, hrest⟩ := h
    rw [Ruleset.evaluate]
    cases performs_rule lowered hcode hr with
    | done gives steps there =>
      obtain ⟨n, result, final, hends, hresult⟩ := ih hrest there
      rw [gives]
      exact ⟨_, result, final, steps.ends hends, hresult⟩
    | failed gives ends =>
      rw [gives]
      exact ⟨_, _, _, ends, rfl⟩

/-- A program that a compiler gives, with or without its marks, does what the rules say in the order
in which they are emitted: it ends, it makes the same calls and gets the same answers, and its
result tells the same. -/
theorem Compiler.compile_correct {c : Compiler} {rules order : Ruleset} {p : Program}
    (h : (c.compile rules).1 = .ok p) (horder : rules.InOrder c.settings order) (facts : Facts)
    (policy : FactPolicy) {σ : Type} (host : Host σ) (state : σ) :
    ∃ n result final,
      (p.machine facts ⟨policy, none⟩).Ends host.logged n {} (state, []) result final ∧
      (outcome result, final) = order.evaluate facts policy host.logged ({}, (state, [])) := by
  obtain rfl := Ruleset.inOrder_iff.1 horder
  obtain ⟨full, hjoined, hp⟩ := Compiler.joined_of_compile h
  have hplaced : (rules.emissionOrder c.settings).Placed full 0 := hjoined.placed []
  obtain ⟨n, result, final, hends, hresult⟩ : ∃ n result final,
      (full.machine facts ⟨policy, none⟩).Ends host.logged n {} (state, []) result final ∧
      (outcome result, final) = (rules.emissionOrder c.settings).evaluate facts policy host.logged
        ({}, (state, [])) := Program.ends_of_placed hplaced rfl
  cases hp with
  | inl hp => exact ⟨n, result, final, hp ▸ hends, hresult⟩
  | inr hp =>
    obtain ⟨k, _, hcompact⟩ := Program.ends_compact hp hends (Nat.zero_le _)
      (Program.not_cutOff_of_ends rfl hends)
    rw [Registers.compacted_start] at hcompact
    rw [← outcome_compactResult full (0 + k)] at hresult
    exact ⟨k, _, final, hcompact, hresult⟩

theorem Compiler.compile_correct_sample : ∃ n result final,
    (Program.sample.machine (.ofList [("a", .int 2), ("b", .string "x")]) ⟨.strict, none⟩).Ends
      Host.counting.logged n {} (0, []) result final ∧
    outcome result = .error (.host (.scriptUnavailable "f"), some "r") ∧
    final = (1, [(.definition ⟨some "r", "f", ["z"], "z"⟩, none),
      (.action ⟨some "r", "log", "t", "true"⟩, none),
      (.script ⟨some "r", "f", "y"⟩, some (.scriptUnavailable "f"))]) := by
  have horder : Ruleset.sample.InOrder ⟨false, false⟩ .sample := rfl
  obtain ⟨n, result, final, hends, hresult⟩ := compile_correct Ruleset.compile_sample horder
    (.ofList [("a", .int 2), ("b", .string "x")]) .strict Host.counting 0
  obtain ⟨houtcome, hfinal⟩ := Prod.mk.inj hresult
  exact ⟨n, result, final, hends, houtcome, hfinal⟩

end RuleMachine
