import RuleMachine.Proofs.Ruleset.Exact
/-!
What the checker lists. It does not look below a node that mixes the fields of a leaf with lists,
and of a root with a fact and no list it says nothing but that it is no group; it lists what is
wrong with every part that it looks at, and nothing else.
-/

set_option autoImplicit false

namespace RuleMachine

namespace Checked

variable {α β : Type}

def defects : Checked α → List Defect
  | .ok _ => []
  | .error ds => ds

@[simp] theorem defects_ok (a : α) : defects (.ok a : Checked α) = [] := rfl

theorem defects_map (f : α → β) (c : Checked α) : defects (c.map f) = c.defects := by
  cases c <;> rfl

theorem defects_both (c : Checked α) (c' : Checked β) :
    (c.both c').defects = c.defects ++ c'.defects := by
  cases c <;> cases c' <;> simp [both, defects]

theorem defects_sequence (cs : List (Checked α)) :
    (sequence cs).defects = cs.flatMap defects := by
  induction cs with
  | nil => rfl
  | cons c cs ih => rw [sequence, defects_map, defects_both, ih, List.flatMap_cons]

theorem mem_defects_sequence (f : β → Nat → Checked α) (l : List β) {x : Defect} :
    x ∈ (sequence (l.zipIdx.map fun (a, i) => f a i)).defects ↔
      ∃ i a, l[i]? = some a ∧ x ∈ (f a i).defects := by
  rw [defects_sequence, List.mem_flatMap]
  simp only [List.mem_map, Prod.exists, List.mem_zipIdx_iff_getElem?]
  constructor
  · rintro ⟨_, ⟨a, i, ha, rfl⟩, hx⟩
    exact ⟨i, a, ha, hx⟩
  · rintro ⟨i, a, ha, hx⟩
    exact ⟨_, ⟨a, i, ha, rfl⟩, hx⟩

theorem mem_defects_fail {path : String} {k : DefectKind} {x : Defect} :
    x ∈ (fail path k : Checked α).defects ↔ x.path = path ∧ x.kind = k := by
  obtain ⟨kind, path'⟩ := x
  simp [fail, defects, and_comm]

theorem mem_defects_required {path field : String} {value : Option α} {x : Defect} :
    x ∈ (required path field value).defects ↔
      x.path = path ∧ value = none ∧ x.kind = .missingField field := by
  cases value with
  | none => simp [required, mem_defects_fail]
  | some a => simp [required, defects]

theorem mem_defects_requiredText {path field : String} {value : Option String} {x : Defect} :
    x ∈ (requiredText path field value).defects ↔
      x.path = path ∧ TextDefect field value x.kind := by
  obtain ⟨kind, p⟩ := x
  unfold requiredText
  cases value with
  | none =>
    rw [mem_defects_fail]
    refine and_congr_right fun _ => ⟨?_, fun h => ?_⟩
    · rintro rfl
      exact .missing rfl
    · cases h with
      | missing absent => rfl
      | empty blank => cases blank
  | some s =>
    dsimp only
    by_cases hs : s.isEmpty = true
    · rw [if_pos hs, mem_defects_fail, String.isEmpty_iff.1 hs]
      refine and_congr_right fun _ => ⟨?_, fun h => ?_⟩
      · rintro rfl
        exact .empty rfl
      · cases h with
        | missing absent => cases absent
        | empty blank => rfl
    · rw [if_neg hs]
      refine iff_of_false List.not_mem_nil fun h => ?_
      exact not_textDefect ⟨s, rfl, fun he => hs (String.isEmpty_iff.2 he)⟩ h.2

end Checked

namespace ConditionDraft

open Checked

inductive ChildAt (c : ConditionDraft) (path : String) : ConditionDraft → String → Prop where
  | all {child : ConditionDraft} {i : Nat} (child_eq : (c.all.getD [])[i]? = some child) :
      ChildAt c path child (elementPath (path ++ ".all") i)
  | any {child : ConditionDraft} {i : Nat} (child_eq : (c.any.getD [])[i]? = some child) :
      ChildAt c path child (elementPath (path ++ ".any") i)

/-- The nodes of a condition that the checker looks at: below no node with a field of a leaf. -/
inductive SeenAt : ConditionDraft → String → ConditionDraft → String → Prop where
  | root (c : ConditionDraft) (path : String) : SeenAt c path c path
  | child {c child node : ConditionDraft} {path q p : String} (leaf : c.isLeaf = false)
      (child_at : c.ChildAt path child q) (inner : SeenAt child q node p) : SeenAt c path node p

/-- A node that the checker looks at is violated. -/
def ListedAt (c : ConditionDraft) (path : String) (x : Defect) : Prop :=
  ∃ node, c.SeenAt path node x.path ∧ node.Violates x.kind

variable {c child child' node : ConditionDraft} {path p q q' : String} {x : Defect}

theorem exists_childAt_iff {P : ConditionDraft → String → Prop} :
    (∃ child q, c.ChildAt path child q ∧ P child q) ↔
      (∃ (i : Nat) (child : ConditionDraft), (c.all.getD [])[i]? = some child ∧
        P child (elementPath (path ++ ".all") i)) ∨
      ∃ (i : Nat) (child : ConditionDraft), (c.any.getD [])[i]? = some child ∧
        P child (elementPath (path ++ ".any") i) := by
  constructor
  · rintro ⟨child, q, hchild, h⟩
    cases hchild with
    | all child_eq => exact .inl ⟨_, child, child_eq, h⟩
    | any child_eq => exact .inr ⟨_, child, child_eq, h⟩
  · rintro (⟨i, child, child_eq, h⟩ | ⟨i, child, child_eq, h⟩)
    · exact ⟨child, _, .all child_eq, h⟩
    · exact ⟨child, _, .any child_eq, h⟩

theorem ChildAt.at (h : c.ChildAt path child q) (inner : child.At q node p) :
    c.At path node p := by
  cases h with
  | all child_eq => exact .all child_eq inner
  | any child_eq => exact .any child_eq inner

theorem SeenAt.at (h : c.SeenAt path node p) : c.At path node p := by
  induction h with
  | root c path => exact .root c path
  | child leaf child_at inner ih => exact child_at.at ih

theorem ListedAt.defectAt (h : c.ListedAt path x) : c.DefectAt path x := by
  obtain ⟨node, hseen, hviolates⟩ := h
  exact ⟨node, hseen.at, hviolates⟩

theorem listedAt_of_leaf (leaf : c.isLeaf = true) :
    c.ListedAt path x ↔ x.path = path ∧ c.Violates x.kind := by
  constructor
  · rintro ⟨node, hseen, hviolates⟩
    obtain ⟨kind, p⟩ := x
    cases hseen with
    | root => exact ⟨rfl, hviolates⟩
    | child other =>
      rw [leaf] at other
      cases other
  · rintro ⟨rfl, hviolates⟩
    exact ⟨c, .root .., hviolates⟩

theorem listedAt_of_not_leaf (leaf : c.isLeaf = false) :
    c.ListedAt path x ↔ (x.path = path ∧ c.Violates x.kind) ∨
      ∃ child q, c.ChildAt path child q ∧ child.ListedAt q x := by
  constructor
  · rintro ⟨node, hseen, hviolates⟩
    obtain ⟨kind, p⟩ := x
    cases hseen with
    | root => exact .inl ⟨rfl, hviolates⟩
    | child _ child_at inner => exact .inr ⟨_, _, child_at, node, inner, hviolates⟩
  · rintro (⟨rfl, hviolates⟩ | ⟨child, q, child_at, node, inner, hviolates⟩)
    · exact ⟨c, .root .., hviolates⟩
    · exact ⟨node, .child leaf child_at inner, hviolates⟩

theorem mem_defects_checkLeaf (leaf : c.isLeaf = true) (group : c.isGroup = false) :
    x ∈ (c.checkLeaf path).defects ↔ x.path = path ∧ c.Violates x.kind := by
  obtain ⟨kind, p⟩ := x
  rw [checkLeaf, defects_map, defects_both, defects_both, List.mem_append, List.mem_append,
    mem_defects_requiredText, mem_defects_requiredText, mem_defects_required, ← and_or_left,
    ← and_or_left]
  refine and_congr_right fun _ => ⟨?_, fun h => ?_⟩
  · rintro (defect | defect | ⟨absent, rfl⟩)
    · exact .fact leaf group defect
    · exact .operator leaf group defect
    · exact .value leaf group absent
  · cases h with
    | mixed _ other =>
      rw [group] at other
      cases other
    | empty other =>
      rw [leaf] at other
      cases other
    | fact _ _ defect => exact .inl defect
    | operator _ _ defect => exact .inr (.inl defect)
    | value _ _ absent => exact .inr (.inr ⟨absent, rfl⟩)

theorem violates_iff_of_not_leaf (leaf : c.isLeaf = false) {k : DefectKind} :
    c.Violates k ↔ k = .emptyCondition ∧ c.all.getD [] = [] ∧ c.any.getD [] = [] := by
  constructor
  · intro h
    cases h with
    | empty _ all any => exact ⟨rfl, all, any⟩
    | mixed other | fact other | operator other | value other =>
      rw [leaf] at other
      cases other
  · rintro ⟨rfl, all, any⟩
    exact .empty leaf all any

theorem violates_iff_of_mixed (leaf : c.isLeaf = true) (group : c.isGroup = true)
    {k : DefectKind} : c.Violates k ↔ k = .mixedCondition := by
  constructor
  · intro h
    cases h with
    | mixed => rfl
    | empty other =>
      rw [leaf] at other
      cases other
    | fact _ other | operator _ other | value _ other =>
      rw [group] at other
      cases other
  · rintro rfl
    exact .mixed leaf group

theorem checkChildren?_eq_ok {cs : Option (List ConditionDraft)} {as : List Condition}
    (h : checkChildren? path cs = .ok as) : as = (cs.getD []).map image := by
  have hfinds : (checkChildren? path cs).Finds _ _ :=
    finds_checkChildren? (fun c _ path => c.finds_check path) path
  rw [h] at hfinds
  exact hfinds.2

theorem checkChildren?_of_nil {cs : Option (List ConditionDraft)} (h : cs.getD [] = []) :
    checkChildren? path cs = .ok [] := by
  rw [checkChildren?_eq, h]
  rfl

theorem both_eq_ok_nil_iff {all any : Option (List ConditionDraft)} {p q : String} :
    (checkChildren? p all).both (checkChildren? q any) = .ok ([], []) ↔
      all.getD [] = [] ∧ any.getD [] = [] := by
  constructor
  · intro h
    cases hall : checkChildren? p all with
    | error ds =>
      rw [hall] at h
      cases hany : checkChildren? q any <;> rw [hany] at h <;> cases h
    | ok as =>
      cases hany : checkChildren? q any with
      | error ds =>
        rw [hall, hany] at h
        cases h
      | ok bs =>
        rw [hall, hany] at h
        cases h
        exact ⟨List.map_eq_nil_iff.1 (checkChildren?_eq_ok hall).symm,
          List.map_eq_nil_iff.1 (checkChildren?_eq_ok hany).symm⟩
  · rintro ⟨hall, hany⟩
    rw [checkChildren?_of_nil hall, checkChildren?_of_nil hany]
    rfl

theorem mem_defects_checkGroup (leaf : c.isLeaf = false) :
    x ∈ (checkGroup path ((checkChildren? (path ++ ".all") c.all).both
        (checkChildren? (path ++ ".any") c.any))).defects ↔
      (x.path = path ∧ c.Violates x.kind) ∨
        x ∈ (checkChildren? (path ++ ".all") c.all).defects ∨
        x ∈ (checkChildren? (path ++ ".any") c.any).defects := by
  rw [violates_iff_of_not_leaf leaf, ← both_eq_ok_nil_iff, ← List.mem_append, ← defects_both]
  cases (checkChildren? (path ++ ".all") c.all).both (checkChildren? (path ++ ".any") c.any) with
  | error ds => simp [checkGroup, defects, bind, Except.bind]
  | ok lists =>
    obtain ⟨as, bs⟩ := lists
    have hcheck : checkGroup path (.ok (as, bs)) =
        if as.isEmpty && bs.isEmpty then fail path .emptyCondition
        else .ok (.group as bs) := rfl
    rw [hcheck]
    by_cases hnil : as = [] ∧ bs = []
    · obtain ⟨rfl, rfl⟩ := hnil
      simp [mem_defects_fail]
    · rw [if_neg (by simpa using hnil)]
      simpa using fun _ _ => not_and.1 hnil

theorem mem_defects_checkChildren? {cs : Option (List ConditionDraft)}
    (h : ∀ c ∈ cs.getD [], ∀ path, x ∈ (c.check path).defects ↔ c.ListedAt path x)
    (path : String) : x ∈ (checkChildren? path cs).defects ↔
      ∃ (i : Nat) (child : ConditionDraft), (cs.getD [])[i]? = some child ∧
        child.ListedAt (elementPath path i) x := by
  rw [checkChildren?_eq]
  refine (mem_defects_sequence (fun c i => check (elementPath path i) c) _).trans ?_
  refine exists_congr fun i => exists_congr fun child => and_congr_right fun hchild => ?_
  exact h child (List.mem_of_getElem? hchild) (elementPath path i)

theorem mem_defects_check (c : ConditionDraft) (path : String) (x : Defect) :
    x ∈ (c.check path).defects ↔ c.ListedAt path x := by
  induction c using induction generalizing path with
  | step c hall hany =>
    rw [check_eq]
    cases hleaf : c.isLeaf with
    | true =>
      rw [listedAt_of_leaf hleaf]
      cases hgroup : c.isGroup with
      | true =>
        rw [violates_iff_of_mixed hleaf hgroup]
        exact mem_defects_fail
      | false => exact mem_defects_checkLeaf hleaf hgroup
    | false =>
      rw [listedAt_of_not_leaf hleaf, exists_childAt_iff]
      cases hgroup : c.isGroup with
      | true =>
        refine (mem_defects_checkGroup hleaf).trans (or_congr_right (or_congr ?_ ?_))
        · exact mem_defects_checkChildren? hall (path ++ ".all")
        · exact mem_defects_checkChildren? hany (path ++ ".any")
      | false =>
        obtain ⟨hall, hany⟩ := isGroup_eq_false_iff.1 hgroup
        rw [violates_iff_of_not_leaf hleaf, hall, hany]
        simpa using mem_defects_fail

end ConditionDraft

namespace RuleDraft

open Checked

/-- What the checker lists of a rule. -/
inductive ListedAt (r : RuleDraft) (path : String) : Defect → Prop where
  | own {k : DefectKind} (violates : r.Violates k) : ListedAt r path ⟨k, path⟩
  | root {c : ConditionDraft} (present : r.conditions = some c) (fact : c.fact.isSome = true)
      (group : c.isGroup = false) : ListedAt r path ⟨.rootNotGroup, path ++ ".conditions"⟩
  | condition {c : ConditionDraft} {x : Defect} (present : r.conditions = some c)
      (root : c.fact.isSome = true → c.isGroup = true)
      (inner : c.ListedAt (path ++ ".conditions") x) : ListedAt r path x
  | action {a : ActionDraft} {i : Nat} {k : DefectKind} (action_eq : r.actions[i]? = some a)
      (violates : a.Violates k) : ListedAt r path ⟨k, elementPath (path ++ ".actions") i⟩

variable {path : String} {x : Defect}

theorem not_priorityDefect_none {k : DefectKind} : ¬ PriorityDefect none k := nofun

theorem priorityDefect_some_iff {n : Int} {k : DefectKind} : PriorityDefect (some n) k ↔
    (n < 0 ∧ k = .negativePriority n) ∨ (2147483647 < n ∧ k = .priorityTooLarge n) := by
  constructor
  · intro h
    cases h with
    | negative present low =>
      cases present
      exact .inl ⟨low, rfl⟩
    | large present high =>
      cases present
      exact .inr ⟨high, rfl⟩
  · rintro (⟨low, rfl⟩ | ⟨high, rfl⟩)
    · exact .negative rfl low
    · exact .large rfl high

theorem mem_defects_checkPriority {priority : Option Int} :
    x ∈ (checkPriority path priority).defects ↔
      x.path = path ∧ PriorityDefect priority x.kind := by
  unfold checkPriority maxPriority
  cases priority with
  | none => exact iff_of_false List.not_mem_nil fun h => not_priorityDefect_none h.2
  | some n =>
    rw [priorityDefect_some_iff, Option.getD_some]
    dsimp only
    by_cases hlow : n < 0
    · have hsmall : ¬ 2147483647 < n := by omega
      simp [mem_defects_fail, hlow, hsmall]
    · by_cases hhigh : n ≤ 2147483647
      · have hsmall : ¬ 2147483647 < n := by omega
        simp [hlow, hhigh, hsmall]
      · have hlarge : 2147483647 < n := by omega
        simp [mem_defects_fail, hlow, hhigh, hlarge]

theorem mem_defects_checkConditions {conditions : Option ConditionDraft} :
    x ∈ (checkConditions path conditions).defects ↔
      (x = ⟨.missingField "conditions", path⟩ ∧ conditions = none) ∨
      ∃ c, conditions = some c ∧
        ((x = ⟨.rootNotGroup, path ++ ".conditions"⟩ ∧ c.fact.isSome = true ∧ c.isGroup = false) ∨
          ((c.fact.isSome = true → c.isGroup = true) ∧ c.ListedAt (path ++ ".conditions") x)) := by
  obtain ⟨kind, p⟩ := x
  unfold checkConditions
  cases conditions with
  | none => simp [mem_defects_fail, and_comm]
  | some c =>
    dsimp only
    by_cases hroot : (c.fact.isSome && !c.isGroup) = true
    · rw [if_pos hroot, mem_defects_fail]
      simp only [Bool.and_eq_true, Bool.not_eq_true'] at hroot
      simp [hroot, and_comm]
    · rw [if_neg hroot, ConditionDraft.mem_defects_check]
      simp only [Bool.and_eq_true, Bool.not_eq_true', not_and, Bool.not_eq_false] at hroot
      refine ⟨fun inner => .inr ⟨c, rfl, .inr ⟨hroot, inner⟩⟩, ?_⟩
      rintro (⟨_, absent⟩ | ⟨_, present, ⟨_, fact, group⟩ | ⟨_, inner⟩⟩)
      · cases absent
      · cases present
        rw [hroot fact] at group
        cases group
      · cases present
        exact inner

theorem mem_defects_checkAction {a : ActionDraft} :
    x ∈ (checkAction path a).defects ↔ x.path = path ∧ a.Violates x.kind := by
  obtain ⟨kind, p⟩ := x
  rw [checkAction, defects_map, defects_both, defects_both, List.mem_append, List.mem_append,
    mem_defects_requiredText, mem_defects_required, mem_defects_required, ← and_or_left,
    ← and_or_left]
  refine and_congr_right fun _ => ⟨?_, fun h => ?_⟩
  · rintro (defect | ⟨absent, rfl⟩ | ⟨absent, rfl⟩)
    · exact .kind defect
    · exact .target absent
    · exact .value absent
  · cases h with
    | kind defect => exact .inl defect
    | target absent => exact .inr (.inl ⟨absent, rfl⟩)
    | value absent => exact .inr (.inr ⟨absent, rfl⟩)

theorem mem_defects_check (path : String) (r : RuleDraft) (x : Defect) :
    x ∈ (r.check path).defects ↔ r.ListedAt path x := by
  have hactions := mem_defects_sequence
    (fun a i => checkAction (elementPath (path ++ ".actions") i) a) r.actions (x := x)
  rw [check, defects_map, defects_both, defects_both, defects_both, List.mem_append,
    List.mem_append, List.mem_append, mem_defects_requiredText, mem_defects_checkPriority,
    mem_defects_checkConditions, hactions]
  constructor
  · obtain ⟨kind, p⟩ := x
    rintro (⟨rfl, defect⟩ | ⟨rfl, defect⟩ | (⟨hx, absent⟩ | ⟨c, present, hx⟩) | ⟨i, a, ha, hx⟩)
    · exact .own (.name defect)
    · exact .own (.priority defect)
    · cases hx
      exact .own (.conditions absent)
    · obtain ⟨hx, fact, group⟩ | ⟨root, inner⟩ := hx
      · cases hx
        exact .root present fact group
      · exact .condition present root inner
    · obtain ⟨rfl, violates⟩ := mem_defects_checkAction.1 hx
      exact .action ha violates
  · intro h
    cases h with
    | own violates =>
      cases violates with
      | name defect => exact .inl ⟨rfl, defect⟩
      | priority defect => exact .inr (.inl ⟨rfl, defect⟩)
      | conditions absent => exact .inr (.inr (.inl (.inl ⟨rfl, absent⟩)))
    | root present fact group =>
      exact .inr (.inr (.inl (.inr ⟨_, present, .inl ⟨rfl, fact, group⟩⟩)))
    | condition present root inner =>
      exact .inr (.inr (.inl (.inr ⟨_, present, .inr ⟨root, inner⟩⟩)))
    | action action_eq violates =>
      exact .inr (.inr (.inr ⟨_, _, action_eq, mem_defects_checkAction.2 ⟨rfl, violates⟩⟩))

end RuleDraft

/-- The checker lists what is wrong with the parts that it looks at, and nothing else. -/
theorem RulesetDraft.mem_defects_check (d : RulesetDraft) (x : Defect) :
    x ∈ Checked.defects d.check ↔ ∃ (i : Nat) (r : RuleDraft),
      d.rules[i]? = some r ∧ r.ListedAt (elementPath "rules" i) x := by
  simp only [← RuleDraft.mem_defects_check]
  exact Checked.mem_defects_sequence (fun r i => r.check (elementPath "rules" i)) d.rules

end RuleMachine
