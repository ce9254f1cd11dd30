import RuleMachine.Proofs.Ruleset.WellFormed

set_option autoImplicit false

namespace RuleMachine

def DefectKind.field? : DefectKind → Option String
  | .missingField field => some field
  | .emptyField field => some field
  | _ => none

theorem TextDefect.field {field : String} {value : Option String} {k : DefectKind}
    (h : TextDefect field value k) : k.field? = some field := by
  cases h <;> rfl

theorem DefectKind.field_inj {k : DefectKind} {field other : String} (h : k.field? = some field)
    (h' : k.field? = some other) : field = other :=
  Option.some.inj (h.symm.trans h')

namespace Checked

variable {α β : Type}

/-- A check gives a good value, or it lists defects, not none, all genuine, and none twice. -/
def Finds (c : Checked α) (good : α → Prop) (genuine : Defect → Prop) : Prop :=
  match c with
  | .ok a => good a
  | .error defects => defects ≠ [] ∧ defects.Nodup ∧ ∀ x ∈ defects, genuine x

variable {c : Checked α} {c' : Checked β} {good : α → Prop} {good' : β → Prop}
  {genuine genuine' : Defect → Prop}

theorem finds_fail {path : String} {kind : DefectKind} (h : genuine ⟨kind, path⟩) :
    (fail path kind : Checked α).Finds good genuine :=
  ⟨List.cons_ne_nil _ _, List.pairwise_singleton .., List.forall_mem_singleton.2 h⟩

theorem Finds.mono {other : α → Prop} (h : c.Finds good genuine) (hgood : ∀ a, good a → other a)
    (hgenuine : ∀ x, genuine x → genuine' x) : c.Finds other genuine' := by
  cases c with
  | ok a => exact hgood a h
  | error defects =>
    obtain ⟨hne, hnodup, hall⟩ := h
    exact ⟨hne, hnodup, fun x hx => hgenuine x (hall x hx)⟩

theorem Finds.map (h : c.Finds good genuine) (f : α → β) (hgood : ∀ a, good a → good' (f a))
    (hgenuine : ∀ x, genuine x → genuine' x) : Finds (c.map f) good' genuine' := by
  have hmono := h.mono hgood hgenuine
  cases c with
  | ok a => exact hmono
  | error defects => exact hmono

theorem Finds.both (h : c.Finds good genuine) (h' : c'.Finds good' genuine')
    (disjoint : ∀ x, genuine x → ¬ genuine' x) :
    (c.both c').Finds (fun ab => good ab.1 ∧ good' ab.2) fun x => genuine x ∨ genuine' x := by
  cases c with
  | ok a =>
    cases c' with
    | ok b => exact ⟨h, h'⟩
    | error es =>
      obtain ⟨hne, hnodup, hall⟩ := h'
      exact ⟨hne, hnodup, fun x hx => .inr (hall x hx)⟩
  | error ds =>
    obtain ⟨hne, hnodup, hall⟩ := h
    cases c' with
    | ok b => exact ⟨hne, hnodup, fun x hx => .inl (hall x hx)⟩
    | error es =>
      obtain ⟨_, hnodup', hall'⟩ := h'
      refine ⟨List.append_ne_nil_of_left_ne_nil hne es,
        List.nodup_append.2 ⟨hnodup, hnodup', fun x hx y hy he => ?_⟩, fun x hx => ?_⟩
      · exact disjoint x (hall x hx) (he ▸ hall' y hy)
      · exact (List.mem_append.1 hx).imp (hall x) (hall' x)

theorem finds_required (path field : String) (value : Option α) :
    (required path field value).Finds (fun a => value = some a)
      fun x => x = ⟨.missingField field, path⟩ ∧ value = none := by
  cases value with
  | none => exact finds_fail ⟨rfl, rfl⟩
  | some a => rfl

theorem finds_requiredText (path field : String) (value : Option String) :
    (requiredText path field value).Finds (fun s => value = some s ∧ s ≠ "")
      fun x => x.path = path ∧ TextDefect field value x.kind := by
  unfold requiredText
  cases value with
  | none => exact finds_fail ⟨rfl, .missing rfl⟩
  | some s =>
    dsimp only
    by_cases hs : s.isEmpty = true
    · rw [if_pos hs]
      exact finds_fail ⟨rfl, .empty (by rw [String.isEmpty_iff.1 hs])⟩
    · rw [if_neg hs]
      exact ⟨rfl, fun he => hs (String.isEmpty_iff.2 he)⟩

/-- Checks of the elements of a list whose defects tell the elements apart. -/
theorem finds_sequence {f : α → Nat → Checked β} {wellFormed : α → Prop} {image : α → β}
    {genuine : α → Nat → Defect → Prop}
    (disjoint : ∀ a b i j x, genuine a i x → genuine b j x → i = j) {l : List α}
    (h : ∀ a ∈ l, ∀ i, (f a i).Finds (fun b => wellFormed a ∧ b = image a) (genuine a i))
    (k : Nat) :
    (Checked.sequence ((l.zipIdx k).map fun (a, i) => f a i)).Finds
      (fun bs => (∀ a ∈ l, wellFormed a) ∧ bs = l.map image)
      fun x => ∃ i a, l[i]? = some a ∧ genuine a (k + i) x := by
  induction l generalizing k with
  | nil => exact ⟨List.forall_mem_nil _, rfl⟩
  | cons a l ih =>
    obtain ⟨ha, hl⟩ := List.forall_mem_cons.1 h
    refine ((ha k).both (ih hl (k + 1)) fun x hx hrest => ?_).map _ (fun p hp => ?_) fun x hx => ?_
    · obtain ⟨i, b, _, hb⟩ := hrest
      have hindex := disjoint a b k (k + 1 + i) x hx hb
      omega
    · obtain ⟨⟨hwell, hfirst⟩, hall, hmore⟩ := hp
      exact ⟨List.forall_mem_cons.2 ⟨hwell, hall⟩, by rw [List.map_cons, ← hfirst, ← hmore]⟩
    · obtain hx | ⟨i, b, hb, hx⟩ := hx
      · exact ⟨0, a, rfl, hx⟩
      · exact ⟨i + 1, b, by simpa using hb, by rwa [show k + (i + 1) = k + 1 + i by omega]⟩

end Checked

namespace ConditionDraft

open Checked

theorem sizeOf_child {child : ConditionDraft} {cs : Option (List ConditionDraft)}
    (h : child ∈ cs.getD []) : sizeOf child < sizeOf cs := by
  cases cs with
  | none => cases h
  | some cs =>
    have hlt := List.sizeOf_lt_of_mem h
    simp only [Option.getD_some, Option.some.sizeOf_spec] at hlt ⊢
    omega

theorem sizeOf_lists (c : ConditionDraft) : sizeOf c.all < sizeOf c ∧ sizeOf c.any < sizeOf c := by
  cases c
  simp only [mk.sizeOf_spec]
  omega

/-- What holds of a node if it holds of its children holds of every node. -/
theorem induction {P : ConditionDraft → Prop}
    (step : ∀ c, (∀ child ∈ c.all.getD [], P child) → (∀ child ∈ c.any.getD [], P child) → P c)
    (c : ConditionDraft) : P c :=
  step c (fun child _ => induction step child) fun child _ => induction step child
termination_by sizeOf c
decreasing_by
  · exact Nat.lt_trans (sizeOf_child ‹_›) c.sizeOf_lists.1
  · exact Nat.lt_trans (sizeOf_child ‹_›) c.sizeOf_lists.2

theorem checkChildren_eq (path : String) (k : Nat) (cs : List ConditionDraft) :
    checkChildren path k cs =
      Checked.sequence ((cs.zipIdx k).map fun (c, i) => c.check (elementPath path i)) := by
  induction cs generalizing k with
  | nil => rw [checkChildren]; rfl
  | cons c rest ih =>
    rw [checkChildren, ih]
    rfl

theorem checkChildren?_eq (path : String) (cs : Option (List ConditionDraft)) :
    checkChildren? path cs =
      Checked.sequence ((cs.getD []).zipIdx.map fun (c, i) => c.check (elementPath path i)) := by
  cases cs with
  | none => rw [checkChildren?]; rfl
  | some cs => rw [checkChildren?, checkChildren_eq]; rfl

theorem check_eq (path : String) (c : ConditionDraft) : c.check path =
    if c.isLeaf && c.isGroup then fail path .mixedCondition
    else if c.isGroup then
      checkGroup path ((checkChildren? (path ++ ".all") c.all).both
        (checkChildren? (path ++ ".any") c.any))
    else if c.isLeaf then c.checkLeaf path
    else fail path .emptyCondition := by
  cases c
  rw [check]

theorem DefectAt.under {c : ConditionDraft} {path : String} {x : Defect} (h : c.DefectAt path x) :
    Under path x.path := by
  obtain ⟨node, hat, _⟩ := h
  exact hat.under

theorem finds_checkChildren? {cs : Option (List ConditionDraft)}
    (h : ∀ c ∈ cs.getD [], ∀ path,
      (c.check path).Finds (fun a => c.WellFormed ∧ a = c.image) (c.DefectAt path))
    (path : String) : (checkChildren? path cs).Finds
      (fun as => (∀ c ∈ cs.getD [], c.WellFormed) ∧ as = (cs.getD []).map image)
      fun x => ∃ i c, (cs.getD [])[i]? = some c ∧ DefectAt c (elementPath path i) x := by
  rw [checkChildren?_eq]
  have hsequence := finds_sequence
    (fun a b i j x (hx : a.DefectAt (elementPath path i) x)
      (hy : b.DefectAt (elementPath path j) x) => hx.under.element_inj hy.under)
    (fun c hc i => h c hc (elementPath path i)) 0
  simpa only [Nat.zero_add] using hsequence

theorem isLeaf_eq_false_iff {c : ConditionDraft} :
    c.isLeaf = false ↔ c.fact = none ∧ c.operator = none ∧ c.value = none := by
  simp [isLeaf, and_assoc]

theorem isGroup_eq_false_iff {c : ConditionDraft} :
    c.isGroup = false ↔ c.all = none ∧ c.any = none := by
  simp [isGroup]

theorem finds_checkLeaf (path : String) (c : ConditionDraft) (leaf : c.isLeaf = true)
    (group : c.isGroup = false) :
    (c.checkLeaf path).Finds (fun a => c.WellFormed ∧ a = c.image) (c.DefectAt path) := by
  have hfact := finds_requiredText path "fact" c.fact
  have hoperator := finds_requiredText path "operator" c.operator
  have hvalue := finds_required path "value" c.value
  refine (hfact.both (hoperator.both hvalue fun x hx hy => ?_) fun x hx hy => ?_).map _
    (fun a ha => ?_) fun x hx => ?_
  · obtain ⟨rfl, _⟩ := hy
    exact absurd (DefectKind.field_inj hx.2.field rfl) (by decide)
  · obtain hy | ⟨rfl, _⟩ := hy
    · exact absurd (DefectKind.field_inj hx.2.field hy.2.field) (by decide)
    · exact absurd (DefectKind.field_inj hx.2.field rfl) (by decide)
  · obtain ⟨fact, operator, value⟩ := a
    obtain ⟨⟨hfact, fact_filled⟩, ⟨hoperator, operator_filled⟩, hvalue⟩ := ha
    obtain ⟨hall, hany⟩ := isGroup_eq_false_iff.1 group
    cases c
    cases hfact
    cases hoperator
    cases hvalue
    cases hall
    cases hany
    exact ⟨.leaf fact_filled operator_filled, rfl⟩
  · obtain ⟨rfl, defect⟩ | ⟨rfl, defect⟩ | ⟨rfl, absent⟩ := hx
    · exact ⟨c, .root .., .fact leaf group defect⟩
    · exact ⟨c, .root .., .operator leaf group defect⟩
    · exact ⟨c, .root .., .value leaf group absent⟩

theorem finds_checkGroup (path : String) {all any : Option (List ConditionDraft)}
    {children : Checked (List Condition × List Condition)} {genuine : Defect → Prop}
    (h : children.Finds (fun lists =>
      ((∀ c ∈ all.getD [], c.WellFormed) ∧ lists.1 = (all.getD []).map image) ∧
        (∀ c ∈ any.getD [], c.WellFormed) ∧ lists.2 = (any.getD []).map image) genuine)
    (hgenuine : ∀ x, genuine x → DefectAt ⟨none, none, none, all, any⟩ path x) :
    (checkGroup path children).Finds
      (fun a => WellFormed ⟨none, none, none, all, any⟩ ∧ a = image ⟨none, none, none, all, any⟩)
      (DefectAt ⟨none, none, none, all, any⟩ path) := by
  cases children with
  | error defects =>
    obtain ⟨hne, hnodup, hmem⟩ := h
    exact ⟨hne, hnodup, fun x hx => hgenuine x (hmem x hx)⟩
  | ok lists =>
    obtain ⟨as, bs⟩ := lists
    obtain ⟨⟨hall, rfl⟩, hany, rfl⟩ := h
    have hcheck : checkGroup path (.ok ((all.getD []).map image, (any.getD []).map image)) =
        if ((all.getD []).map image).isEmpty && ((any.getD []).map image).isEmpty then
          fail path .emptyCondition
        else .ok (.group ((all.getD []).map image) ((any.getD []).map image)) := rfl
    rw [hcheck, List.isEmpty_map, List.isEmpty_map]
    by_cases hempty : ((all.getD []).isEmpty && (any.getD []).isEmpty) = true
    · rw [if_pos hempty]
      simp only [Bool.and_eq_true, List.isEmpty_iff] at hempty
      exact finds_fail ⟨_, .root .., .empty rfl hempty.1 hempty.2⟩
    · rw [if_neg hempty]
      refine ⟨.group ?_ hall hany, (image_group all any).symm⟩
      simpa [Classical.or_iff_not_imp_left] using hempty

theorem finds_check (c : ConditionDraft) (path : String) :
    (c.check path).Finds (fun a => c.WellFormed ∧ a = c.image) (c.DefectAt path) := by
  induction c using induction generalizing path with
  | step c hall hany =>
    rw [check_eq]
    cases hleaf : c.isLeaf with
    | true =>
      cases hgroup : c.isGroup with
      | true => exact finds_fail ⟨c, .root .., .mixed hleaf hgroup⟩
      | false => exact finds_checkLeaf path c hleaf hgroup
    | false =>
      cases hgroup : c.isGroup with
      | true =>
        -- the two lists are checked side by side; their paths keep their defects apart
        have hlists := (finds_checkChildren? hall (path ++ ".all")).both
          (finds_checkChildren? hany (path ++ ".any")) fun x hx hy => by
            obtain ⟨i, a, _, node, hat, _⟩ := hx
            obtain ⟨j, b, _, node', hat', _⟩ := hy
            exact hat.all_any hat'
        obtain ⟨fact, operator, value, all, any⟩ := c
        obtain ⟨hfact, hoperator, hvalue⟩ := isLeaf_eq_false_iff.1 hleaf
        dsimp only at hfact hoperator hvalue
        subst hfact hoperator hvalue
        refine finds_checkGroup path hlists fun x hx => ?_
        obtain hx | hx := hx
        · obtain ⟨i, child, hchild, node, hat, hviolates⟩ := hx
          exact ⟨node, .all hchild hat, hviolates⟩
        · obtain ⟨i, child, hchild, node, hat, hviolates⟩ := hx
          exact ⟨node, .any hchild hat, hviolates⟩
      | false =>
        obtain ⟨hall, hany⟩ := isGroup_eq_false_iff.1 hgroup
        exact finds_fail ⟨c, .root .., .empty hleaf (by rw [hall]; rfl) (by rw [hany]; rfl)⟩

end ConditionDraft

theorem PriorityDefect.field {priority : Option Int} {k : DefectKind}
    (h : PriorityDefect priority k) : k.field? = none := by
  cases h <;> rfl

namespace RuleDraft

open Checked

theorem finds_checkPriority (path : String) (priority : Option Int) :
    (checkPriority path priority).Finds
      (fun n => (∀ p, priority = some p → 0 ≤ p ∧ p ≤ 2147483647) ∧
        n = .ofNat (priority.getD 0).toNat)
      fun x => x.path = path ∧ PriorityDefect priority x.kind := by
  unfold checkPriority maxPriority
  cases priority with
  | none => exact ⟨nofun, rfl⟩
  | some p =>
    simp only [Option.getD_some]
    by_cases hlow : p < 0
    · rw [if_pos hlow]
      exact finds_fail ⟨rfl, .negative rfl hlow⟩
    · rw [if_neg hlow]
      by_cases hhigh : p ≤ 2147483647
      · rw [if_pos hhigh]
        refine ⟨fun q hq => ?_, rfl⟩
        cases hq
        omega
      · rw [if_neg hhigh]
        exact finds_fail ⟨rfl, .large rfl (by omega)⟩

def ConditionsDefect (path : String) (conditions : Option ConditionDraft) (x : Defect) : Prop :=
  (x = ⟨.missingField "conditions", path⟩ ∧ conditions = none) ∨
    ∃ c, conditions = some c ∧
      ((x = ⟨.rootNotGroup, path ++ ".conditions"⟩ ∧ c.fact.isSome = true ∧ c.isGroup = false) ∨
        c.DefectAt (path ++ ".conditions") x)

theorem finds_checkConditions (path : String) (conditions : Option ConditionDraft) :
    (checkConditions path conditions).Finds
      (fun a => ∃ c, conditions = some c ∧ (c.isGroup = true ∧ c.WellFormed) ∧ a = c.image)
      (ConditionsDefect path conditions) := by
  unfold checkConditions
  cases conditions with
  | none => exact finds_fail (.inl ⟨rfl, rfl⟩)
  | some c =>
    dsimp only
    by_cases hroot : (c.fact.isSome && !c.isGroup) = true
    · rw [if_pos hroot]
      simp only [Bool.and_eq_true, Bool.not_eq_true'] at hroot
      exact finds_fail (.inr ⟨c, rfl, .inl ⟨rfl, hroot⟩⟩)
    · rw [if_neg hroot]
      refine (c.finds_check _).mono (fun a ha => ⟨c, rfl, ⟨?_, ha.1⟩, ha.2⟩)
        fun x hx => .inr ⟨c, rfl, .inr hx⟩
      -- a leaf has a fact, and a root with a fact is a group
      obtain ⟨hwell, _⟩ := ha
      cases hwell with
      | leaf fact_filled operator_filled => exact absurd rfl hroot
      | @group all any inhabited all_wellFormed any_wellFormed =>
        cases all with
        | some all => rfl
        | none =>
          cases any with
          | some any => rfl
          | none => cases inhabited <;> contradiction

theorem finds_checkAction (path : String) (a : ActionDraft) :
    (checkAction path a).Finds (fun b => a.WellFormed ∧ b = a.image)
      fun x => x.path = path ∧ a.Violates x.kind := by
  have hkind := finds_requiredText path "type" a.kind
  have htarget := finds_required path "target" a.target
  have hvalue := finds_required path "value" a.value
  refine (hkind.both (htarget.both hvalue fun x hx hy => ?_) fun x hx hy => ?_).map _
    (fun b hb => ?_) fun x hx => ?_
  · obtain ⟨rfl, _⟩ := hx
    exact absurd hy.1 (by simp)
  · obtain ⟨rfl, _⟩ | ⟨rfl, _⟩ := hy
    · exact absurd (DefectKind.field_inj hx.2.field rfl) (by decide)
    · exact absurd (DefectKind.field_inj hx.2.field rfl) (by decide)
  · obtain ⟨kind, target, value⟩ := b
    obtain ⟨⟨hkind, filled⟩, htarget, hvalue⟩ := hb
    dsimp only at hkind filled htarget hvalue ⊢
    refine ⟨⟨⟨kind, hkind, filled⟩, by rw [htarget]; rfl, by rw [hvalue]; rfl⟩, ?_⟩
    rw [ActionDraft.image, hkind, htarget, hvalue]
    rfl
  · obtain ⟨hpath, defect⟩ | ⟨rfl, absent⟩ | ⟨rfl, absent⟩ := hx
    · exact ⟨hpath, .kind defect⟩
    · exact ⟨rfl, .target absent⟩
    · exact ⟨rfl, .value absent⟩

theorem ConditionsDefect.path_cases {path : String} {conditions : Option ConditionDraft}
    {x : Defect} (h : ConditionsDefect path conditions x) :
    x = ⟨.missingField "conditions", path⟩ ∨ Under (path ++ ".conditions") x.path := by
  obtain ⟨rfl, _⟩ | ⟨c, _, ⟨rfl, _⟩ | hx⟩ := h
  · exact .inl rfl
  · exact .inr (.refl _)
  · exact .inr hx.under

def ActionsDefect (path : String) (actions : List ActionDraft) (x : Defect) : Prop :=
  ∃ i a, actions[i]? = some a ∧ x.path = elementPath (path ++ ".actions") i ∧ a.Violates x.kind

theorem ActionsDefect.under {path : String} {actions : List ActionDraft} {x : Defect}
    (h : ActionsDefect path actions x) : Under (path ++ ".actions") x.path := by
  obtain ⟨i, a, _, hpath, _⟩ := h
  rw [hpath]
  exact .element _ i

theorem finds_checkActions (path : String) (actions : List ActionDraft) :
    (Checked.sequence (actions.zipIdx.map fun (a, i) =>
      checkAction (elementPath (path ++ ".actions") i) a)).Finds
      (fun as => (∀ a ∈ actions, a.WellFormed) ∧ as = actions.map ActionDraft.image)
      (ActionsDefect path actions) := by
  have hsequence := finds_sequence
    (fun a b i j x (hx : x.path = elementPath (path ++ ".actions") i ∧ a.Violates x.kind)
        (hy : x.path = elementPath (path ++ ".actions") j ∧ b.Violates x.kind) =>
      (Under.of_eq hx.1).element_inj (.of_eq hy.1))
    (fun a (_ : a ∈ actions) i => finds_checkAction (elementPath (path ++ ".actions") i) a) 0
  simp only [Nat.zero_add] at hsequence
  exact hsequence

theorem not_part {path : String} {r : RuleDraft} {x : Defect} (hpath : x.path = path)
    (hkind : x.kind ≠ .missingField "conditions") :
    ¬ (ConditionsDefect path r.conditions x ∨ ActionsDefect path r.actions x) := by
  subst hpath
  intro h
  obtain h | h := h
  · obtain hx | hunder := h.path_cases
    · exact hkind (congrArg Defect.kind hx)
    · exact Under.not_field (by decide) hunder
  · exact Under.not_field (by decide) h.under

theorem finds_check (path : String) (r : RuleDraft) :
    (r.check path).Finds (fun rule => r.WellFormed ∧ rule = r.image) (r.DefectAt path) := by
  have hname := finds_requiredText path "name" r.name
  have hpriority := finds_checkPriority path r.priority
  have hconditions := finds_checkConditions path r.conditions
  have hactions := finds_checkActions path r.actions
  refine (hname.both (hpriority.both (hconditions.both hactions fun x hx hy => ?_)
    fun x hx hy => ?_) fun x hx hy => ?_).map _ (fun rule hrule => ?_) fun x hx => ?_
  · obtain rfl | hunder := hx.path_cases
    · exact Under.not_field (by decide) hy.under
    · exact absurd (hunder.field_prefix hy.under) (by decide)
  · refine not_part hx.1 (fun hkind => ?_) hy
    have hfield := hx.2.field
    rw [hkind] at hfield
    cases hfield
  · obtain hy | hy := hy
    · have hfield := hx.2.field
      rw [hy.2.field] at hfield
      cases hfield
    · refine not_part hx.1 (fun hkind => ?_) hy
      have hfield := hx.2.field
      rw [hkind] at hfield
      exact absurd hfield (by decide)
  · obtain ⟨name, priority, conditions, actions⟩ := rule
    obtain ⟨⟨hname, filled⟩, ⟨hrange, hpriority⟩, ⟨c, hc, hwell, himage⟩, hactions, hlist⟩ := hrule
    dsimp only at hname filled hpriority himage hlist ⊢
    refine ⟨⟨⟨name, hname, filled⟩, hrange, ⟨c, hc, hwell⟩, hactions⟩, ?_⟩
    rw [RuleDraft.image, hname, hc, hpriority, himage, hlist]
    rfl
  · obtain ⟨kind, path'⟩ := x
    obtain ⟨rfl, defect⟩ | ⟨rfl, defect⟩ | (⟨hx, absent⟩ | ⟨c, hc, hx⟩) | hx := hx
    · exact .own (.name defect)
    · exact .own (.priority defect)
    · cases hx
      exact .own (.conditions absent)
    · obtain ⟨hx, fact, group⟩ | hx := hx
      · cases hx
        exact .root hc fact group
      · exact .condition hc hx
    · obtain ⟨i, a, ha, rfl, violates⟩ := hx
      exact .action ha violates

end RuleDraft

theorem RuleDraft.DefectAt.under {r : RuleDraft} {path : String} {x : Defect}
    (h : r.DefectAt path x) : Under path x.path := by
  cases h with
  | own violates => exact .refl path
  | root present fact group => exact .append ..
  | condition present inner => exact (Under.append ..).trans inner.under
  | action action_eq violates => exact (Under.append ..).trans (.element ..)

namespace RulesetDraft

theorem finds_check (d : RulesetDraft) :
    d.check.Finds (fun rules => d.WellFormed ∧ rules = d.image) d.Genuine := by
  have hsequence := Checked.finds_sequence
    (fun a b i j x (hx : a.DefectAt (elementPath "rules" i) x)
      (hy : b.DefectAt (elementPath "rules" j) x) => hx.under.element_inj hy.under)
    (fun r (_ : r ∈ d.rules) i => r.finds_check (elementPath "rules" i)) 0
  simp only [Nat.zero_add] at hsequence
  exact hsequence

/-- The checker accepts exactly the well-formed drafts and gives what they stand for. Otherwise it
lists defects, at least one and none twice, and the path of each leads to a part of the draft that
has it. -/
theorem check_exact (d : RulesetDraft) :
    (∀ rules, d.check = .ok rules ↔ d.WellFormed ∧ rules = d.image) ∧
    ∀ defects, d.check = .error defects →
      ¬ d.WellFormed ∧ defects ≠ [] ∧ defects.Nodup ∧ ∀ x ∈ defects, d.Genuine x := by
  have hfinds := d.finds_check
  cases hcheck : d.check with
  | ok image =>
    rw [hcheck] at hfinds
    obtain ⟨hwell, rfl⟩ := hfinds
    refine ⟨fun rules => ⟨fun h => ?_, fun h => ?_⟩, nofun⟩
    · cases h
      exact ⟨hwell, rfl⟩
    · rw [h.2]
  | error defects =>
    rw [hcheck] at hfinds
    obtain ⟨hne, hnodup, hall⟩ := hfinds
    have hnot : ¬ d.WellFormed := (hall _ (List.head_mem hne)).not_wellFormed
    refine ⟨fun rules => ⟨nofun, fun h => absurd h.1 hnot⟩, fun other h => ?_⟩
    cases h
    exact ⟨hnot, hne, hnodup, hall⟩

def plain : RulesetDraft :=
  ⟨[{ name := some "r"
      conditions := some { all := some [{ any := some [
        { fact := some "a", operator := some "GT", value := some (.int 1) }] }] } }]⟩

def faulty : RulesetDraft :=
  ⟨[{ name := some ""
      priority := some (-4)
      conditions := some
        { all := some [{ fact := some "a", value := some (.int 1) }, {}]
          any := some [{ operator := some "GT", all := some [] }] }
      actions := [{ kind := some "log" }] },
    { name := some "s", conditions := some { fact := some "a" } }]⟩

theorem check_exact_faulty : plain.check = .ok plain.image ∧ plain.WellFormed ∧
    ∃ defects, faulty.check = .error defects ∧
      defects.map Defect.path = ["rules[0]", "rules[0]", "rules[0].conditions.all[0]",
        "rules[0].conditions.all[1]", "rules[0].conditions.any[0]", "rules[0].actions[0]",
        "rules[0].actions[0]", "rules[1].conditions"] ∧
      defects.Nodup ∧ ∀ x ∈ defects, faulty.Genuine x := by
  have hplain : plain.check = .ok plain.image := rfl
  obtain ⟨defects, hfaulty, hpaths⟩ : ∃ defects, faulty.check = .error defects ∧
      defects.map Defect.path = ["rules[0]", "rules[0]", "rules[0].conditions.all[0]",
        "rules[0].conditions.all[1]", "rules[0].conditions.any[0]", "rules[0].actions[0]",
        "rules[0].actions[0]", "rules[1].conditions"] := ⟨_, rfl, rfl⟩
  obtain ⟨_, _, hnodup, hgenuine⟩ := faulty.check_exact.2 defects hfaulty
  exact ⟨hplain, ((plain.check_exact.1 _).1 hplain).1, defects, hfaulty, hpaths, hnodup, hgenuine⟩

end RulesetDraft

end RuleMachine
