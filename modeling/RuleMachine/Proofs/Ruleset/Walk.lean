import Mathlib.Tactic.SplitIfs
import RuleMachine.Proofs.Ruleset.Exact
import RuleMachine.Ruleset.Validate
/-!
The walk over a draft gives what the check of it gives. Where the check has a value, the walk finds
it and lists nothing; where the check has defects, the walk lists them behind those before.
-/

set_option autoImplicit false

namespace RuleMachine

namespace Validation

variable {α β γ α' β' γ' : Type} {work : Validation β} {work' : Validation β'} {value : α → β}
  {value' : α' → β'} {left : β → Prop} {left' : β' → Prop} {c : Checked α} {c' : Checked α'}

theorem run_bind {next : β → Validation γ} {b : β} {before after : List Defect}
    (h : work.run before = (b, after)) : (work >>= next).run before = (next b).run after := by
  rw [StateT.run_bind, h]
  rfl

/-- How a walk reports on what is checked. `value` is what it finds where there is no defect, and
`left` holds of what it finds elsewhere. -/
def Reports (work : Validation β) (value : α → β) (left : β → Prop) (c : Checked α) : Prop :=
  ∀ before, match c with
    | .ok a => work.run before = (value a, before)
    | .error defects => ∃ b, left b ∧ work.run before = (b, before ++ defects)

theorem Reports.both (h : Reports work value left c) (h' : Reports work' value' left' c') :
    Reports (do let b ← work; let b' ← work'; return (b, b')) (Prod.map value value')
      (fun b => left b.1 ∨ left' b.2) (c.both c') := by
  intro before
  cases c with
  | ok a =>
    have hrun : work.run before = (value a, before) := h before
    cases c' with
    | ok a' => exact (run_bind hrun).trans (run_bind (h' before))
    | error defects' =>
      obtain ⟨b', hb', hrun'⟩ := h' before
      exact ⟨(_, b'), .inr hb', (run_bind hrun).trans (run_bind hrun')⟩
  | error defects =>
    obtain ⟨b, hb, hrun⟩ := h before
    cases c' with
    | ok a' => exact ⟨(b, _), .inl hb, (run_bind hrun).trans (run_bind (h' _))⟩
    | error defects' =>
      obtain ⟨b', -, hrun'⟩ := h' (before ++ defects)
      rw [List.append_assoc] at hrun'
      exact ⟨(b, b'), .inl hb, (run_bind hrun).trans (run_bind hrun')⟩

theorem Reports.map (h : Reports work value left c) (f : α → α') (g : β → β')
    (hvalue : ∀ a, g (value a) = value' (f a)) (hleft : ∀ b, left b → left' (g b)) :
    Reports (do let b ← work; return g b) value' left' (c.map f) := by
  intro before
  cases c with
  | ok a =>
    have hrun : work.run before = (value a, before) := h before
    exact (run_bind hrun).trans (congrArg (·, before) (hvalue a))
  | error defects =>
    obtain ⟨b, hb, hrun⟩ := h before
    exact ⟨g b, hleft b hb, run_bind hrun⟩

theorem Reports.weaken (h : Reports work value left c) :
    Reports work value (fun _ => True) c := by
  intro before
  have hbefore := h before
  cases c with
  | ok a => exact hbefore
  | error defects =>
    obtain ⟨b, -, hrun⟩ := hbefore
    exact ⟨b, trivial, hrun⟩

abbrev Gives (work : Validation (Option α)) (c : Checked α) : Prop := Reports work some (· = none) c

theorem Reports.bind (h : Reports work value left c) (next : β → Validation (Option γ))
    (check : α → Checked γ) (hvalue : ∀ a, Gives (next (value a)) (check a))
    (hleft : ∀ b before, left b → (next b).run before = (none, before)) :
    Gives (work >>= next) (c >>= check) := by
  intro before
  cases c with
  | ok a =>
    have hrun : (work >>= next).run before = (next (value a)).run before := run_bind (h before)
    have hnext := hvalue a before
    have hcheck : (Except.ok a >>= check) = check a := rfl
    rw [hcheck]
    cases hc : check a with
    | ok x =>
      rw [hc] at hnext
      exact hrun.trans hnext
    | error defects =>
      rw [hc] at hnext
      obtain ⟨b, hb, hnone⟩ := hnext
      exact ⟨b, hb, hrun.trans hnone⟩
  | error defects =>
    obtain ⟨b, hb, hrun⟩ := h before
    exact ⟨none, rfl, (run_bind hrun).trans (hleft b _ hb)⟩

theorem gives_report (path : String) (kind : DefectKind) :
    Gives (do report path kind; return none) (Checked.fail path kind : Checked α) :=
  fun _ => ⟨none, rfl, rfl⟩

theorem gives_some (a : α) : Gives (return some a) (.ok a) := fun _ => rfl

theorem gives_required (path field : String) (a : Option α) :
    Gives (required path field a) (Checked.required path field a) := by
  cases a with
  | none => exact gives_report path _
  | some a => exact gives_some a

theorem gives_requiredText (path field : String) (s : Option String) :
    Gives (requiredText path field s) (Checked.requiredText path field s) := by
  cases s with
  | none => exact gives_report path _
  | some s =>
    unfold requiredText Checked.requiredText
    dsimp only
    split_ifs
    · exact gives_report path _
    · exact gives_some s

theorem reports_keep {visit : Nat → α → Validation (Option β)} {check : α → Nat → Checked β}
    (h : ∀ a index, Reports (visit index a) some (fun _ => True) (check a index)) (as : List α)
    (index : Nat) : Reports (keep visit index as) id (fun _ => True)
      (Checked.sequence ((as.zipIdx index).map fun p => check p.1 p.2)) := by
  induction as generalizing index with
  | nil => exact fun _ => rfl
  | cons a rest ih =>
    rw [List.zipIdx_cons, List.map_cons, Checked.sequence]
    refine ((h a index).both (ih (index + 1))).map (fun p => p.1 :: p.2)
      (fun p => p.1.toList ++ p.2) ?_ ?_
    · exact fun _ => rfl
    · exact fun _ _ => trivial

end Validation

open Validation

namespace ConditionDraft

theorem gives_validateLeaf (path : String) (c : ConditionDraft) :
    Gives (c.validateLeaf path) (c.checkLeaf path) := by
  have hfields := (gives_requiredText path "fact" c.fact).both
    ((gives_requiredText path "operator" c.operator).both (gives_required path "value" c.value))
  refine hfields.map (fun p => Condition.leaf p.1 p.2.1 p.2.2)
    (fun p => do return Condition.leaf (← p.1) (← p.2.1) (← p.2.2)) (fun _ => rfl) ?_
  rintro ⟨fact, operator, value⟩ (rfl | rfl | rfl)
  · rfl
  · cases fact <;> rfl
  · cases fact <;> cases operator <;> rfl

mutual

theorem gives_validate (path : String) :
    ∀ c : ConditionDraft, Gives (c.validate path) (c.check path)
  | ⟨fact, operator, value, all, any⟩ => by
    have hall := gives_validateChildren? (path ++ ".all") all
    have hany := gives_validateChildren? (path ++ ".any") any
    rw [validate, check]
    dsimp only
    split_ifs
    · exact gives_report path _
    · refine (hall.both hany).bind (fun b => validateGroup path b.1 b.2) _ (fun found => ?_) ?_
      · dsimp only [Prod.map, validateGroup]
        split_ifs
        · exact gives_report path _
        · exact gives_some _
      · rintro ⟨all, any⟩ before (rfl | rfl)
        · rfl
        · cases all <;> rfl
    · exact gives_validateLeaf path _
    · exact gives_report path _

theorem gives_validateChildren? (path : String) : ∀ cs : Option (List ConditionDraft),
    Gives (validateChildren? path cs) (checkChildren? path cs)
  | none => gives_some []
  | some children => by
    have hchildren := reports_validateChildren path 0 children
    rw [checkChildren?]
    intro before
    have hbefore := hchildren before
    cases hcheck : checkChildren path 0 children with
    | ok cs =>
      rw [hcheck] at hbefore
      exact run_bind hbefore
    | error defects =>
      rw [hcheck] at hbefore
      obtain ⟨⟨_, found⟩, rfl, hrun⟩ := hbefore
      exact ⟨none, rfl, run_bind hrun⟩

theorem reports_validateChildren (path : String) (index : Nat) : ∀ cs : List ConditionDraft,
    Reports (validateChildren path index cs) (true, ·) (·.1 = false) (checkChildren path index cs)
  | [] => fun _ => rfl
  | c :: rest => by
    have hfirst := gives_validate (elementPath path index) c
    have hmore := reports_validateChildren path (index + 1) rest
    rw [checkChildren]
    refine (hfirst.both hmore).map (fun p => p.1 :: p.2)
      (fun p => (p.1.isSome && p.2.1, p.1.toList ++ p.2.2)) ?_ ?_
    · exact fun _ => rfl
    · rintro ⟨child, sound, children⟩ (rfl | rfl)
      · rfl
      · cases child <;> rfl

end

end ConditionDraft

namespace RuleDraft

theorem gives_validatePriority (path : String) (priority : Option Int) :
    Gives (validatePriority path priority) (checkPriority path priority) := by
  unfold validatePriority checkPriority
  dsimp only
  split_ifs
  · exact gives_report path _
  · exact gives_some _
  · exact gives_report path _

theorem gives_validateConditions (path : String) (conditions : Option ConditionDraft) :
    Gives (validateConditions path conditions) (checkConditions path conditions) := by
  cases conditions with
  | none => exact gives_report path _
  | some c =>
    unfold validateConditions checkConditions
    dsimp only
    split_ifs
    · exact gives_report _ _
    · exact c.gives_validate _

theorem gives_validateAction (path : String) (a : ActionDraft) :
    Gives (validateAction path a) (checkAction path a) := by
  have hfields := (gives_requiredText path "type" a.kind).both
    ((gives_required path "target" a.target).both (gives_required path "value" a.value))
  refine hfields.map (fun p => Action.mk p.1 p.2.1 p.2.2)
    (fun p => do return Action.mk (← p.1) (← p.2.1) (← p.2.2)) (fun _ => rfl) ?_
  rintro ⟨kind, target, value⟩ (rfl | rfl | rfl)
  · rfl
  · cases kind <;> rfl
  · cases kind <;> cases target <;> rfl

/-- A rule is found where nothing is wrong with it; what is found elsewhere does not matter. -/
theorem reports_validate (path : String) (r : RuleDraft) :
    Reports (r.validate path) some (fun _ => True) (r.check path) := by
  have hactions := reports_keep
    (fun a index => (gives_validateAction (elementPath (path ++ ".actions") index) a).weaken)
    r.actions 0
  have hparts := (gives_requiredText path "name" r.name).both
    ((gives_validatePriority path r.priority).both
      ((gives_validateConditions path r.conditions).both hactions))
  refine hparts.map (fun p => Rule.mk p.1 p.2.1 p.2.2.1 p.2.2.2 r.scripts)
    (fun p => do return Rule.mk (← p.1) (← p.2.1) (← p.2.2.1) p.2.2.2 r.scripts) (fun _ => rfl) ?_
  exact fun _ _ => trivial

end RuleDraft

/-- The walk gives the rules that the check gives, or lists the same defects in the same order. -/
theorem RulesetDraft.validate_eq_check (d : RulesetDraft) : d.validate = d.check := by
  have hkeep := reports_keep (fun r index => r.reports_validate (elementPath "rules" index)) d.rules
    0 []
  have hcheck : d.check = Checked.sequence
    (d.rules.zipIdx.map fun p => p.1.check (elementPath "rules" p.2)) := rfl
  have hfinds := d.finds_check
  rw [← hcheck] at hkeep
  unfold validate
  cases hc : d.check with
  | ok rules =>
    rw [hc] at hkeep
    rw [hkeep]
    rfl
  | error defects =>
    rw [hc] at hkeep hfinds
    obtain ⟨found, -, hrun⟩ := hkeep
    rw [hrun]
    cases defects with
    | nil => exact absurd rfl hfinds.1
    | cons first more => rfl

end RuleMachine
