import RuleMachine.Proofs.Compiler.Acceptance
import RuleMachine.Proofs.Ruleset.Exact

set_option autoImplicit false

namespace RuleMachine

/-- The kind of the value does not have the operator, or a text does not fit an operand. -/
def CompileCause.LeftOpen (cause : CompileCause) : Prop :=
  (∃ operator kind, cause = .unsupportedOperator operator kind ∧
    operator ∉ ScalarKind.symbols kind) ∨
  ∃ length, cause = .encoding (.textTooLong length) ∧ 65535 < length

variable {cause : CompileCause}

theorem leftOpen_of_textViolations {s : String} (h : cause ∈ textViolations s) :
    cause.LeftOpen := by
  unfold textViolations at h
  split at h
  · cases h
  · rename_i hlong
    refine .inr ⟨_, List.mem_singleton.1 h, ?_⟩
    exact Nat.lt_of_not_le hlong

theorem violationsOf_eq_flatMap (cs : List Condition) :
    violationsOf cs = cs.flatMap Condition.violations := by
  induction cs with
  | nil => rfl
  | cons c rest ih => rw [violationsOf, ih, List.flatMap_cons]

theorem leftOpen_of_leaf {fact operator : String} {value : Scalar}
    (h : cause ∈ Condition.violations (.leaf fact operator value)) : cause.LeftOpen := by
  simp only [Condition.violations, List.mem_append] at h
  obtain hoperator | hfact | hvalue := h
  · split at hoperator
    · cases hoperator
    · exact .inl ⟨operator, value.kind, List.mem_singleton.1 hoperator, by assumption⟩
  · exact leftOpen_of_textViolations hfact
  · cases value with
    | string s => exact leftOpen_of_textViolations hvalue
    | int n => cases hvalue
    | float x => cases hvalue
    | bool b => cases hvalue

theorem ConditionDraft.WellFormed.leftOpen {c : ConditionDraft} (h : c.WellFormed)
    (hcause : cause ∈ c.image.violations) : cause.LeftOpen := by
  induction h with
  | leaf fact_filled operator_filled => exact leftOpen_of_leaf hcause
  | @group all any inhabited _ _ all_open any_open =>
    have hchildren : ¬ (((all.getD []).map image).isEmpty &&
        ((any.getD []).map image).isEmpty) = true := by
      simpa [Classical.or_iff_not_imp_left] using inhabited
    rw [image_group, Condition.violations, if_neg hchildren, List.nil_append,
      List.mem_append] at hcause
    simp only [violationsOf_eq_flatMap, List.mem_flatMap, List.mem_map] at hcause
    obtain ⟨_, ⟨c, hc, rfl⟩, hcause⟩ | ⟨_, ⟨c, hc, rfl⟩, hcause⟩ := hcause
    · exact all_open c hc hcause
    · exact any_open c hc hcause

theorem leftOpen_of_script {name : String} {s : Script} (h : cause ∈ s.violations name) :
    cause.LeftOpen := by
  simp only [Script.violations, List.mem_append, List.mem_flatMap] at h
  obtain hname | ⟨param, _, hparam⟩ | hbody := h
  · exact leftOpen_of_textViolations hname
  · exact leftOpen_of_textViolations hparam
  · exact leftOpen_of_textViolations hbody

theorem leftOpen_of_action {a : Action} (h : cause ∈ a.violations) : cause.LeftOpen := by
  simp only [Action.violations, List.mem_append] at h
  obtain hkind | htarget | hvalue := h
  · split at hkind
    · cases hkind
    · exact leftOpen_of_textViolations hkind
  · exact leftOpen_of_textViolations htarget
  · exact leftOpen_of_textViolations hvalue

theorem RuleDraft.WellFormed.toNat_priority_le {r : RuleDraft} (h : r.WellFormed) :
    r.image.priority.toNat ≤ 2147483647 := by
  have hrange : 0 ≤ r.priority.getD 0 ∧ r.priority.getD 0 ≤ 2147483647 := by
    cases hp : r.priority with
    | none => decide
    | some p => exact h.priority p hp
  simp only [RuleDraft.image, UInt32.toNat_ofNat']
  omega

theorem RuleDraft.WellFormed.leftOpen {r : RuleDraft} (h : r.WellFormed)
    (hcause : cause ∈ r.image.violations) : cause.LeftOpen := by
  simp only [Rule.violations, List.mem_append, List.mem_flatMap] at hcause
  obtain hname | hpriority | ⟨entry, _, hscript⟩ | hcondition | ⟨a, _, haction⟩ := hcause
  · exact leftOpen_of_textViolations hname
  · rw [priorityViolations_eq_nil_iff.2 h.toNat_priority_le] at hpriority
    cases hpriority
  · exact leftOpen_of_script hscript
  · obtain ⟨c, hc, _, hwell⟩ := h.conditions
    rw [RuleDraft.image, hc] at hcondition
    exact hwell.leftOpen hcondition
  · exact leftOpen_of_action haction

namespace Compiler

/-- A compiler fails over a violation of a rule that it names. -/
theorem Reached.violation_of_error {settings : CompilerSettings} {c : Compiler}
    (h : Reached settings c) {rules : Ruleset} (hsmall : ∀ r ∈ rules, r.Small) {e : CompileError}
    (he : (c.compile rules).1 = .error e) :
    ∃ r ∈ rules, e.rule = some r.name ∧ e.cause ∈ r.violations := by
  have hmem : ∀ r ∈ rules.emissionOrder settings, r ∈ rules := by
    intro r hr
    unfold Ruleset.emissionOrder at hr
    split at hr
    · exact (List.mergeSort_perm rules _).mem_iff.1 hr
    · exact hr
  rw [h.compile_eq, Ruleset.program_eq] at he
  obtain ⟨_, full, hfull⟩ | ⟨e', front, r, back, hfail, heq, _, _, hrule, hhead⟩ :=
    Ruleset.alone_cases fun r hr => hsmall r (hmem r hr)
  · obtain ⟨p, hp⟩ := settings.exists_finish (Ruleset.joined_of_alone hfull).forward
    rw [hfull] at he
    cases hp.symm.trans he
  · rw [hfail] at he
    cases he
    refine ⟨r, hmem r ?_, hrule, List.mem_of_mem_head? hhead⟩
    rw [heq]
    exact List.mem_append_right _ List.mem_cons_self

/-- Where rules have been checked, a compiler fails for an operator that the kind of its value does
not have or for a text that is too long, and for nothing else, and it names a rule. -/
theorem compile_checked {d : RulesetDraft} {rules : Ruleset} (hcheck : d.check = .ok rules)
    (hsmall : ∀ r ∈ rules, r.Small) {settings : CompilerSettings} {c : Compiler}
    (h : Reached settings c) {e : CompileError} (he : (c.compile rules).1 = .error e) :
    ((∃ operator kind, e.cause = .unsupportedOperator operator kind ∧
        operator ∉ ScalarKind.symbols kind) ∨
      ∃ length, e.cause = .encoding (.textTooLong length) ∧ 65535 < length) ∧
    ∃ r ∈ rules, e.rule = some r.name := by
  have hfinds := d.finds_check
  rw [hcheck] at hfinds
  obtain ⟨hwell, rfl⟩ := hfinds
  obtain ⟨r, hr, hrule, hcause⟩ := h.violation_of_error hsmall he
  obtain ⟨draft, hdraft, rfl⟩ := List.mem_map.1 hr
  exact ⟨(hwell draft hdraft).leftOpen hcause, _, hr, hrule⟩

end Compiler

def RulesetDraft.unordered : RulesetDraft :=
  ⟨[{ name := some "r"
      conditions := some { any := some [
        { fact := some "a", operator := some "GT", value := some (.bool true) }] } }]⟩

theorem Compiler.compile_checked_unordered : ∃ rules e, RulesetDraft.unordered.check = .ok rules ∧
    Ruleset.program ⟨true, false⟩ rules = .error e ∧
    (∃ operator kind, e.cause = .unsupportedOperator operator kind ∧
      operator ∉ ScalarKind.symbols kind) ∧ ∃ r ∈ rules, e.rule = some r.name := by
  have hcheck : RulesetDraft.unordered.check = .ok RulesetDraft.unordered.image := rfl
  have hsmall : ∀ r ∈ RulesetDraft.unordered.image, r.Small :=
    List.forall_mem_cons.2 ⟨⟨by decide, by decide⟩, List.forall_mem_nil _⟩
  obtain ⟨e, he, hcause⟩ : ∃ e,
      Ruleset.program ⟨true, false⟩ RulesetDraft.unordered.image = .error e ∧
      e.cause = .unsupportedOperator "GT" .bool := ⟨_, rfl, rfl⟩
  obtain ⟨hopen, hrule⟩ := compile_checked hcheck hsmall Reached.new he
  refine ⟨_, e, hcheck, he, ?_, hrule⟩
  obtain hoperator | ⟨length, htext, _⟩ := hopen
  · exact hoperator
  · rw [hcause] at htext
    cases htext

end RuleMachine
