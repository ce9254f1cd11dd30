import RuleMachine.Proofs.Ruleset.Paths

set_option autoImplicit false

namespace RuleMachine

namespace ConditionDraft

/-- A leaf has all of its fields and no list. A group has no field of a leaf and a child in one of
its lists. -/
inductive WellFormed : ConditionDraft → Prop where
  | leaf {fact operator : String} {value : Scalar} (fact_filled : fact ≠ "")
      (operator_filled : operator ≠ "") :
      WellFormed ⟨some fact, some operator, some value, none, none⟩
  | group {all any : Option (List ConditionDraft)}
      (inhabited : all.getD [] ≠ [] ∨ any.getD [] ≠ [])
      (all_wellFormed : ∀ c ∈ all.getD [], WellFormed c)
      (any_wellFormed : ∀ c ∈ any.getD [], WellFormed c) :
      WellFormed ⟨none, none, none, all, any⟩

mutual

/-- The condition that a draft stands for. -/
def image : ConditionDraft → Condition
  | ⟨some fact, some operator, some value, none, none⟩ => .leaf fact operator value
  | ⟨_, _, _, all, any⟩ => .group (images? all) (images? any)

def images? : Option (List ConditionDraft) → List Condition
  | none => []
  | some cs => images cs

def images : List ConditionDraft → List Condition
  | [] => []
  | c :: rest => c.image :: images rest

end

theorem images_eq_map (cs : List ConditionDraft) : images cs = cs.map image := by
  induction cs with
  | nil => rfl
  | cons c rest ih => rw [images, ih, List.map_cons]

theorem images?_eq_map (cs : Option (List ConditionDraft)) :
    images? cs = (cs.getD []).map image := by
  cases cs with
  | none => rfl
  | some cs => exact images_eq_map cs

theorem image_group (all any : Option (List ConditionDraft)) :
    image ⟨none, none, none, all, any⟩ =
      .group ((all.getD []).map image) ((any.getD []).map image) := by
  rw [← images?_eq_map, ← images?_eq_map, image]
  exact nofun

end ConditionDraft

structure ActionDraft.WellFormed (a : ActionDraft) : Prop where
  kind : ∃ kind, a.kind = some kind ∧ kind ≠ ""
  target : a.target.isSome = true
  value : a.value.isSome = true

def ActionDraft.image (a : ActionDraft) : Action :=
  ⟨a.kind.getD "", a.target.getD "", a.value.getD default⟩

structure RuleDraft.WellFormed (r : RuleDraft) : Prop where
  name : ∃ name, r.name = some name ∧ name ≠ ""
  priority : ∀ p, r.priority = some p → 0 ≤ p ∧ p ≤ 2147483647
  conditions : ∃ c, r.conditions = some c ∧ c.isGroup = true ∧ c.WellFormed
  actions : ∀ a ∈ r.actions, a.WellFormed

def RuleDraft.image (r : RuleDraft) : Rule :=
  { name := r.name.getD ""
    priority := .ofNat (r.priority.getD 0).toNat
    conditions := (r.conditions.map ConditionDraft.image).getD default
    actions := r.actions.map ActionDraft.image
    scripts := r.scripts }

def RulesetDraft.WellFormed (d : RulesetDraft) : Prop := ∀ r ∈ d.rules, r.WellFormed

def RulesetDraft.image (d : RulesetDraft) : Ruleset := d.rules.map RuleDraft.image

inductive TextDefect (field : String) (value : Option String) : DefectKind → Prop where
  | missing (absent : value = none) : TextDefect field value (.missingField field)
  | empty (blank : value = some "") : TextDefect field value (.emptyField field)

theorem not_textDefect {field : String} {value : Option String} {k : DefectKind}
    (h : ∃ s, value = some s ∧ s ≠ "") : ¬ TextDefect field value k := by
  obtain ⟨s, rfl, hs⟩ := h
  intro hdefect
  cases hdefect with
  | missing absent => cases absent
  | empty blank =>
    cases blank
    exact hs rfl

inductive PriorityDefect (priority : Option Int) : DefectKind → Prop where
  | negative {p : Int} (present : priority = some p) (low : p < 0) :
      PriorityDefect priority (.negativePriority p)
  | large {p : Int} (present : priority = some p) (high : 2147483647 < p) :
      PriorityDefect priority (.priorityTooLarge p)

/-- What is wrong with a node by itself. -/
inductive ConditionDraft.Violates (c : ConditionDraft) : DefectKind → Prop where
  | mixed (leaf : c.isLeaf = true) (group : c.isGroup = true) : Violates c .mixedCondition
  | empty (leaf : c.isLeaf = false) (all : c.all.getD [] = []) (any : c.any.getD [] = []) :
      Violates c .emptyCondition
  | fact {k : DefectKind} (leaf : c.isLeaf = true) (group : c.isGroup = false)
      (defect : TextDefect "fact" c.fact k) : Violates c k
  | operator {k : DefectKind} (leaf : c.isLeaf = true) (group : c.isGroup = false)
      (defect : TextDefect "operator" c.operator k) : Violates c k
  | value (leaf : c.isLeaf = true) (group : c.isGroup = false) (absent : c.value = none) :
      Violates c (.missingField "value")

inductive ActionDraft.Violates (a : ActionDraft) : DefectKind → Prop where
  | kind {k : DefectKind} (defect : TextDefect "type" a.kind k) : Violates a k
  | target (absent : a.target = none) : Violates a (.missingField "target")
  | value (absent : a.value = none) : Violates a (.missingField "value")

inductive RuleDraft.Violates (r : RuleDraft) : DefectKind → Prop where
  | name {k : DefectKind} (defect : TextDefect "name" r.name k) : Violates r k
  | priority {k : DefectKind} (defect : PriorityDefect r.priority k) : Violates r k
  | conditions (absent : r.conditions = none) : Violates r (.missingField "conditions")

def ConditionDraft.DefectAt (c : ConditionDraft) (path : String) (x : Defect) : Prop :=
  ∃ node, c.At path node x.path ∧ node.Violates x.kind

inductive RuleDraft.DefectAt (r : RuleDraft) (path : String) : Defect → Prop where
  | own {k : DefectKind} (violates : r.Violates k) : DefectAt r path ⟨k, path⟩
  | root {c : ConditionDraft} (present : r.conditions = some c) (fact : c.fact.isSome = true)
      (group : c.isGroup = false) : DefectAt r path ⟨.rootNotGroup, path ++ ".conditions"⟩
  | condition {c : ConditionDraft} {x : Defect} (present : r.conditions = some c)
      (inner : c.DefectAt (path ++ ".conditions") x) : DefectAt r path x
  | action {a : ActionDraft} {i : Nat} {k : DefectKind} (action_eq : r.actions[i]? = some a)
      (violates : a.Violates k) : DefectAt r path ⟨k, elementPath (path ++ ".actions") i⟩

/-- The path of the defect leads to a part of the draft that violates the rule of its kind. -/
def RulesetDraft.Genuine (d : RulesetDraft) (x : Defect) : Prop :=
  ∃ (i : Nat) (r : RuleDraft), d.rules[i]? = some r ∧ r.DefectAt (elementPath "rules" i) x

namespace ConditionDraft.WellFormed

variable {c node : ConditionDraft} {path p : String} {k : DefectKind}

theorem not_violates (h : c.WellFormed) : ¬ c.Violates k := by
  intro hk
  cases h with
  | leaf fact_filled operator_filled =>
    cases hk with
    | mixed leaf group => cases group
    | empty leaf all any => cases leaf
    | fact leaf group defect => exact not_textDefect ⟨_, rfl, fact_filled⟩ defect
    | operator leaf group defect => exact not_textDefect ⟨_, rfl, operator_filled⟩ defect
    | value leaf group absent => cases absent
  | group inhabited all_wellFormed any_wellFormed =>
    cases hk with
    | mixed leaf group => cases leaf
    | empty leaf all any =>
      obtain hall | hany := inhabited
      · exact hall all
      · exact hany any
    | fact leaf group defect => cases leaf
    | operator leaf group defect => cases leaf
    | value leaf group absent => cases leaf

theorem of_at (h : c.WellFormed) (hat : c.At path node p) : node.WellFormed := by
  induction hat with
  | root c path => exact h
  | all child_eq inner ih =>
    have hmem := List.mem_of_getElem? child_eq
    cases h with
    | leaf fact_filled operator_filled => cases hmem
    | group inhabited all_wellFormed any_wellFormed => exact ih (all_wellFormed _ hmem)
  | any child_eq inner ih =>
    have hmem := List.mem_of_getElem? child_eq
    cases h with
    | leaf fact_filled operator_filled => cases hmem
    | group inhabited all_wellFormed any_wellFormed => exact ih (any_wellFormed _ hmem)

end ConditionDraft.WellFormed

theorem ActionDraft.WellFormed.not_violates {a : ActionDraft} {k : DefectKind}
    (h : a.WellFormed) : ¬ a.Violates k := by
  intro hk
  cases hk with
  | kind defect => exact not_textDefect h.kind defect
  | target absent =>
    have htarget := h.target
    rw [absent] at htarget
    cases htarget
  | value absent =>
    have hvalue := h.value
    rw [absent] at hvalue
    cases hvalue

theorem RuleDraft.WellFormed.not_violates {r : RuleDraft} {k : DefectKind}
    (h : r.WellFormed) : ¬ r.Violates k := by
  intro hk
  cases hk with
  | name defect => exact not_textDefect h.name defect
  | priority defect =>
    cases defect with
    | negative present low =>
      have hrange := h.priority _ present
      omega
    | large present high =>
      have hrange := h.priority _ present
      omega
  | conditions absent =>
    obtain ⟨c, hc, _⟩ := h.conditions
    rw [absent] at hc
    cases hc

theorem RuleDraft.WellFormed.not_defectAt {r : RuleDraft} {path : String} {x : Defect}
    (h : r.WellFormed) : ¬ r.DefectAt path x := by
  intro hx
  obtain ⟨c, hc, hgroup, hwell⟩ := h.conditions
  cases hx with
  | own violates => exact h.not_violates violates
  | root present fact group =>
    rw [hc] at present
    cases present
    rw [hgroup] at group
    cases group
  | condition present inner =>
    rw [hc] at present
    cases present
    obtain ⟨node, hat, hviolates⟩ := inner
    exact (hwell.of_at hat).not_violates hviolates
  | action action_eq violates =>
    exact (h.actions _ (List.mem_of_getElem? action_eq)).not_violates violates

/-- A draft with a genuine defect is not well-formed. -/
theorem RulesetDraft.Genuine.not_wellFormed {d : RulesetDraft} {x : Defect} (h : d.Genuine x) :
    ¬ d.WellFormed := by
  obtain ⟨i, r, hr, hx⟩ := h
  intro hd
  exact (hd r (List.mem_of_getElem? hr)).not_defectAt hx

end RuleMachine
