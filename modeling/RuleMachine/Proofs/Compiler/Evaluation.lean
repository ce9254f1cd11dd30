import RuleMachine.Machine.Step
import RuleMachine.Ruleset.Compiler
/-!
Rules evaluated as they are written, with no program in between: a walk over conditions that stops
as early as it can, and actions for the host when a condition holds. Compiled programs are held
against this.
-/

set_option autoImplicit false

namespace RuleMachine

namespace Operator

def ofNumbers : Operator → Single → Single → Bool
  | .gt, x, y => y.less x
  | .lt, x, y => x.less y
  | .gte, x, y => y.less x || x.same y
  | .lte, x, y => x.less y || x.same y
  | .eq, x, y => x.same y
  | .neq, x, y => !x.same y
  | _, _, _ => false

def ofTexts : Operator → String → String → Bool
  | .eq, s, t => s == t
  | .neq, s, t => s != t
  | .contains, s, t => hasPart t.toList s.toList
  | .notContains, s, t => !hasPart t.toList s.toList
  | _, _, _ => false

def ofBools : Operator → Bool → Bool → Bool
  | .eq, a, b => a == b
  | .neq, a, b => a != b
  | _, _, _ => false

def holds? (op : Operator) (fact literal : Scalar) : Option Bool :=
  match literal with
  | .int n => fact.asSingle?.map (op.ofNumbers · (.ofInt n.toInt))
  | .float x => fact.asSingle?.map (op.ofNumbers · x)
  | .string t => fact.asString?.map (op.ofTexts · t)
  | .bool b => fact.asBool?.map (op.ofBools · b)

end Operator

def FactPolicy.unreadable : FactPolicy → RuntimeCause → Except RuntimeCause Bool
  | .lenient, _ => .ok false
  | .strict, cause => .error cause

/-- A comparison of a fact with a literal. One with an operator that the kind of the literal does
not have never compiles. -/
def compareFact (facts : Facts) (policy : FactPolicy) (fact operator : String) (literal : Scalar) :
    Except RuntimeCause Bool :=
  match Operator.ofSymbol? operator with
  | none => .ok false
  | some op =>
    match literal.kind.opcode? op with
    | none => .ok false
    | some opcode =>
      match facts.find? fact with
      | none => policy.unreadable (.missingFact fact)
      | some value =>
        match op.holds? value literal with
        | some holds => .ok holds
        | none => policy.unreadable (.factTypeMismatch fact opcode literal.kind value.kind)

structure Account where
  firedRules : List String := []
  actions : Nat := 0
  scripts : Nat := 0
  factsRead : List String := []
  deriving DecidableEq, Repr

abbrev Evaluation (σ α : Type) := EStateM RuntimeCause (Account × σ) α

namespace Evaluation

variable {σ : Type}

def note (change : Account → Account) : Evaluation σ Unit := modify fun (account, s) =>
  (change account, s)

def ask (host : Host σ) (call : HostCall) (change : Account → Account) : Evaluation σ Unit :=
  fun (account, s) =>
    match host.perform call s with
    | .ok () s => .ok () (change account, s)
    | .error e s => .error (.host e) (account, s)

def ofExcept {α : Type} : Except RuntimeCause α → Evaluation σ α
  | .ok a => pure a
  | .error e => throw e

end Evaluation

section

variable {σ : Type} (facts : Facts) (policy : FactPolicy)

mutual

/-- Whether a condition holds. Of a group with both lists, the second is looked at only when all of
the first hold. -/
def Condition.evaluate : Condition → Evaluation σ Bool
  | .leaf fact operator literal => do
    Evaluation.note fun account => { account with factsRead := account.factsRead ++ [fact] }
    Evaluation.ofExcept (compareFact facts policy fact operator literal)
  | .group all any => do
    if ← evaluateAll all then
      if any.isEmpty then return true else evaluateAny any
    else return false

def evaluateAll : List Condition → Evaluation σ Bool
  | [] => return true
  | c :: rest => do if ← c.evaluate then evaluateAll rest else return false

def evaluateAny : List Condition → Evaluation σ Bool
  | [] => return false
  | c :: rest => do if ← c.evaluate then return true else evaluateAny rest

end

variable (host : Host σ)

def Action.perform (rule : String) (a : Action) : Evaluation σ Unit :=
  if a.kind = Action.scriptKind then
    Evaluation.ask host (.script ⟨some rule, a.target, a.value.display⟩) fun account =>
      { account with scripts := account.scripts + 1 }
  else
    Evaluation.ask host (.action ⟨some rule, a.kind, a.target, a.value.display⟩) fun account =>
      { account with actions := account.actions + 1 }

/-- The actions of a rule, in order. The rule has fired once the first is done. -/
def Rule.act (rule : String) : List Action → Evaluation σ Unit
  | [] => return ()
  | first :: rest => do
    first.perform host rule
    Evaluation.note fun account => { account with firedRules := account.firedRules ++ [rule] }
    rest.forM (Action.perform host rule)

def Rule.evaluate (r : Rule) : Evaluation σ Unit := do
  r.scripts.entries.forM fun (name, script) =>
    Evaluation.ask host (.definition ⟨some r.name, name, script.params, script.body⟩) id
  if ← r.conditions.evaluate facts policy then Rule.act host r.name r.actions

def Ruleset.evaluate : Ruleset → Account × σ →
    Except (RuntimeCause × Option String) Account × σ
  | [], (account, s) => (.ok account, s)
  | r :: rest, state =>
    match r.evaluate facts policy host state with
    | .ok () state => evaluate rest state
    | .error cause (_, s) => (.error (cause, some r.name), s)

end

/-- An order in which rules can be emitted: as they are, or by descending priority and within one
priority as they are. -/
def Ruleset.InOrder (settings : CompilerSettings) (rules order : Ruleset) : Prop :=
  if settings.sortByPriority then
    order.Perm rules ∧ order.Pairwise (fun a b => b.priority ≤ a.priority) ∧
      ∀ n, order.filter (·.priority = n) = rules.filter (·.priority = n)
  else order = rules

theorem Ruleset.emissionOrder_inOrder (settings : CompilerSettings) (rules : Ruleset) :
    rules.InOrder settings (rules.emissionOrder settings) := by
  unfold InOrder emissionOrder
  split
  · have htrans : ∀ a b c : Rule, decide (b.priority ≤ a.priority) = true →
        decide (c.priority ≤ b.priority) = true → decide (c.priority ≤ a.priority) = true := by
      intro a b c hab hbc
      simp only [decide_eq_true_eq] at hab hbc ⊢
      exact UInt32.le_trans hbc hab
    have htotal : ∀ a b : Rule,
        (decide (b.priority ≤ a.priority) || decide (a.priority ≤ b.priority)) = true := by
      intro a b
      simp only [Bool.or_eq_true, decide_eq_true_eq]
      exact UInt32.le_total ..
    have hperm := List.mergeSort_perm rules fun a b : Rule => b.priority ≤ a.priority
    refine ⟨hperm, ?_, fun n => ?_⟩
    · have hsorted := List.pairwise_mergeSort htrans htotal rules
      simpa only [decide_eq_true_eq] using hsorted
    · -- The rules of one priority are sorted among themselves, so sorting keeps their order.
      have hpairwise : (rules.filter (·.priority = n)).Pairwise
          fun a b => decide (b.priority ≤ a.priority) = true := by
        refine List.pairwise_of_forall_mem_list fun a ha b hb => ?_
        have ha := (List.mem_filter.1 ha).2
        have hb := (List.mem_filter.1 hb).2
        simp only [decide_eq_true_eq] at ha hb ⊢
        rw [ha, hb]
        exact UInt32.le_refl n
      have hsub := List.sublist_mergeSort htrans htotal hpairwise List.filter_sublist
      have hfilter := hsub.filter (·.priority = n)
      rw [List.filter_filter, List.filter_congr fun _ _ => Bool.and_self _] at hfilter
      exact (hfilter.eq_of_length (hperm.filter _).length_eq.symm).symm
  · rfl

theorem Ruleset.mem_iff_of_filter {l m : Ruleset}
    (h : ∀ n, l.filter (·.priority = n) = m.filter (·.priority = n)) (r : Rule) :
    r ∈ l ↔ r ∈ m := by
  have hl : r ∈ l.filter (·.priority = r.priority) ↔ r ∈ l := by simp
  have hm : r ∈ m.filter (·.priority = r.priority) ↔ r ∈ m := by simp
  rw [← hl, h, hm]

theorem Ruleset.eq_of_descending {l m : Ruleset}
    (hl : l.Pairwise fun a b => b.priority ≤ a.priority)
    (hm : m.Pairwise fun a b => b.priority ≤ a.priority)
    (h : ∀ n, l.filter (·.priority = n) = m.filter (·.priority = n)) : l = m := by
  induction l generalizing m with
  | nil =>
    cases m with
    | nil => rfl
    | cons b m => cases (mem_iff_of_filter h b).2 List.mem_cons_self
  | cons a l ih =>
    cases m with
    | nil => cases (mem_iff_of_filter h a).1 List.mem_cons_self
    | cons b m =>
      obtain ⟨hla, htail⟩ := List.pairwise_cons.1 hl
      obtain ⟨hmb, htail'⟩ := List.pairwise_cons.1 hm
      -- Each head stands somewhere in the other list, so neither has the greater priority.
      have hab : a.priority = b.priority := by
        refine UInt32.le_antisymm ?_ ?_
        · obtain rfl | ha := List.mem_cons.1 ((mem_iff_of_filter h a).1 List.mem_cons_self)
          · exact UInt32.le_refl _
          · exact hmb a ha
        · obtain rfl | hb := List.mem_cons.1 ((mem_iff_of_filter h b).2 List.mem_cons_self)
          · exact UInt32.le_refl _
          · exact hla b hb
      have hhead := h a.priority
      rw [List.filter_cons_of_pos (by simp), List.filter_cons_of_pos (by simp [hab])] at hhead
      obtain ⟨rfl, _⟩ := List.cons.inj hhead
      refine congrArg (a :: ·) (ih htail htail' fun n => ?_)
      have hn := h n
      rw [List.filter_cons, List.filter_cons] at hn
      split at hn
      · exact (List.cons.inj hn).2
      · exact hn

/-- There is one order in which rules can be emitted. -/
theorem Ruleset.inOrder_iff {settings : CompilerSettings} {rules order : Ruleset} :
    rules.InOrder settings order ↔ order = rules.emissionOrder settings := by
  have hemission := rules.emissionOrder_inOrder settings
  constructor
  · intro h
    unfold InOrder at h hemission
    split at h
    · rw [if_pos ‹_›] at hemission
      exact eq_of_descending h.2.1 hemission.2.1 fun n => (h.2.2 n).trans (hemission.2.2 n).symm
    · rw [if_neg ‹_›] at hemission
      exact h.trans hemission.symm
  · intro h
    exact h ▸ hemission

end RuleMachine
