import RuleMachine.Proofs.Ruleset.Listed
/-!
When the checker lists everything. What is wrong below a node that mixes the fields of a leaf with
lists stays hidden, and so does what is wrong with a leaf in the place of the root; if nothing is
wrong there, every violation is in the list. The list of a ruleset is made of the lists of its rules
alone, with other indices in front.
-/

set_option autoImplicit false

namespace RuleMachine

namespace ConditionDraft

def children (c : ConditionDraft) : List ConditionDraft := c.all.getD [] ++ c.any.getD []

inductive Part : ConditionDraft → ConditionDraft → Prop where
  | root (c : ConditionDraft) : Part c c
  | inside {c child node : ConditionDraft} (child_mem : child ∈ c.children)
      (inner : Part child node) : Part c node

/-- Nothing is wrong below a node with a field of a leaf. -/
def Exposed (c : ConditionDraft) : Prop :=
  ∀ node, c.Part node → node.isLeaf = true → ∀ child ∈ node.children, child.WellFormed

variable {c child child' node : ConditionDraft} {path p q q' : String} {x : Defect}

theorem ChildAt.mem_children (h : c.ChildAt path child q) : child ∈ c.children := by
  cases h with
  | all child_eq => exact List.mem_append_left _ (List.mem_of_getElem? child_eq)
  | any child_eq => exact List.mem_append_right _ (List.mem_of_getElem? child_eq)

theorem exists_childAt (h : child ∈ c.children) (path : String) :
    ∃ q, c.ChildAt path child q := by
  obtain hall | hany := List.mem_append.1 h
  · obtain ⟨i, hi⟩ := List.mem_iff_getElem?.1 hall
    exact ⟨_, .all hi⟩
  · obtain ⟨i, hi⟩ := List.mem_iff_getElem?.1 hany
    exact ⟨_, .any hi⟩

theorem ChildAt.ne (h : c.ChildAt path child q) (hp : Under q p) : p ≠ path := by
  rintro rfl
  cases h with
  | all => exact hp.field_of_element.not_field (by decide)
  | any => exact hp.field_of_element.not_field (by decide)

theorem ChildAt.unique (h : c.ChildAt path child q) (h' : c.ChildAt path child' q')
    (hp : Under q p) (hp' : Under q' p) : child = child' ∧ q = q' := by
  cases h with
  | all child_eq =>
    cases h' with
    | all child_eq' =>
      obtain rfl := hp.element_inj hp'
      rw [child_eq] at child_eq'
      exact ⟨Option.some.inj child_eq', rfl⟩
    | any child_eq' =>
      exact absurd (hp.field_of_element.field_prefix hp'.field_of_element) (by decide)
  | any child_eq =>
    cases h' with
    | all child_eq' =>
      exact absurd (hp.field_of_element.field_prefix hp'.field_of_element) (by decide)
    | any child_eq' =>
      obtain rfl := hp.element_inj hp'
      rw [child_eq] at child_eq'
      exact ⟨Option.some.inj child_eq', rfl⟩

theorem ChildAt.defectAt (h : c.ChildAt path child q) (hx : child.DefectAt q x) :
    c.DefectAt path x := by
  obtain ⟨node, hat, hviolates⟩ := hx
  exact ⟨node, h.at hat, hviolates⟩

theorem WellFormed.not_defectAt (h : c.WellFormed) : ¬ c.DefectAt path x := by
  rintro ⟨node, hat, hviolates⟩
  exact (h.of_at hat).not_violates hviolates

/-- Something is wrong with every draft that is not well-formed, wherever it stands. -/
theorem exists_defectAt (h : ¬ c.WellFormed) (path : String) : ∃ x, c.DefectAt path x := by
  have hfinds := c.finds_check path
  cases hcheck : c.check path with
  | ok a =>
    rw [hcheck] at hfinds
    exact absurd hfinds.1 h
  | error ds =>
    rw [hcheck] at hfinds
    obtain ⟨hne, _, hall⟩ := hfinds
    exact ⟨ds.head hne, hall _ (List.head_mem hne)⟩

theorem Exposed.of_mem (h : c.Exposed) (hchild : child ∈ c.children) : child.Exposed :=
  fun node hnode => h node (.inside hchild hnode)

theorem Exposed.seenAt (h : c.Exposed) {k : DefectKind} (hat : c.At path node p)
    (hviolates : node.Violates k) : c.SeenAt path node p := by
  have step : ∀ {c child node : ConditionDraft} {path q p : String}, c.Exposed →
      node.Violates k → c.ChildAt path child q → child.At q node p →
      (child.Exposed → child.SeenAt q node p) → c.SeenAt path node p := by
    intro c child node path q p h hviolates hchild inner ih
    cases leaf : c.isLeaf with
    | true =>
      have hwell := h c (.root c) leaf child hchild.mem_children
      exact absurd hviolates (hwell.of_at inner).not_violates
    | false => exact .child leaf hchild (ih (h.of_mem hchild.mem_children))
  induction hat with
  | root c path => exact .root c path
  | all child_eq inner ih => exact step h hviolates (.all child_eq) inner fun h => ih h hviolates
  | any child_eq inner ih => exact step h hviolates (.any child_eq) inner fun h => ih h hviolates

theorem ListedAt.of_child (h : c.ListedAt path x) (hchild : c.ChildAt path child q)
    (hx : child.DefectAt q x) : c.isLeaf = false ∧ child.ListedAt q x := by
  have hpath := hchild.ne hx.under
  cases leaf : c.isLeaf with
  | true => exact absurd ((listedAt_of_leaf leaf).1 h).1 hpath
  | false =>
    obtain ⟨hroot, _⟩ | ⟨other, q', hother, hlisted⟩ := (listedAt_of_not_leaf leaf).1 h
    · exact absurd hroot hpath
    · obtain ⟨rfl, rfl⟩ := hother.unique hchild hlisted.defectAt.under hx.under
      exact ⟨rfl, hlisted⟩

theorem Part.exists_hidden (h : c.Part node) (leaf : node.isLeaf = true)
    (hchild : child ∈ node.children) (hwrong : ¬ child.WellFormed) (path : String) :
    ∃ x, c.DefectAt path x ∧ ¬ c.ListedAt path x := by
  induction h generalizing path with
  | root c =>
    obtain ⟨q, hat⟩ := exists_childAt hchild path
    obtain ⟨x, hx⟩ := exists_defectAt hwrong q
    refine ⟨x, hat.defectAt hx, fun hlisted => ?_⟩
    have hnot := (hlisted.of_child hat hx).1
    rw [leaf] at hnot
    cases hnot
  | inside child_mem inner ih =>
    obtain ⟨q, hat⟩ := exists_childAt child_mem path
    obtain ⟨x, hx, hhidden⟩ := ih leaf hchild q
    exact ⟨x, hat.defectAt hx, fun hlisted => hhidden (hlisted.of_child hat hx).2⟩

/-- Every defect of a condition is listed exactly if nothing wrong is hidden. -/
theorem listed_iff_exposed (c : ConditionDraft) (path : String) :
    (∀ x, c.DefectAt path x → c.ListedAt path x) ↔ c.Exposed := by
  constructor
  · intro hall node hpart leaf child hchild
    refine Classical.byContradiction fun hwrong => ?_
    obtain ⟨x, hx, hhidden⟩ := hpart.exists_hidden leaf hchild hwrong path
    exact hhidden (hall x hx)
  · rintro h x ⟨node, hat, hviolates⟩
    exact ⟨node, h.seenAt hat hviolates, hviolates⟩

theorem not_violates_rootNotGroup : ¬ c.Violates .rootNotGroup := by
  intro h
  cases h with
  | fact _ _ defect => cases defect
  | operator _ _ defect => cases defect

end ConditionDraft

namespace RuleDraft

inductive WrongAt (r : RuleDraft) (path : String) : Defect → Prop where
  | part {x : Defect} (defect : r.DefectAt path x) : WrongAt r path x
  | root {c : ConditionDraft} (present : r.conditions = some c) (leaf : c.isLeaf = true)
      (group : c.isGroup = false) : WrongAt r path ⟨.rootNotGroup, path ++ ".conditions"⟩

/-- Nothing wrong is hidden in the condition, and a leaf in the place of the root would be
well-formed in another. -/
def Exposed (r : RuleDraft) : Prop :=
  ∀ c, r.conditions = some c → c.Exposed ∧ (c.isLeaf = true → c.isGroup = false → c.WellFormed)

variable {r : RuleDraft} {path : String} {x : Defect} {c : ConditionDraft}

theorem ListedAt.defectAt (h : r.ListedAt path x) : r.DefectAt path x := by
  cases h with
  | own violates => exact .own violates
  | root present fact group => exact .root present fact group
  | condition present root inner => exact .condition present inner.defectAt
  | action action_eq violates => exact .action action_eq violates

theorem WrongAt.under (h : r.WrongAt path x) : Under path x.path := by
  cases h with
  | part defect => exact defect.under
  | root => exact .append ..

theorem ListedAt.of_condition (h : r.ListedAt path x) (present : r.conditions = some c)
    (hx : Under (path ++ ".conditions") x.path) :
    (x.kind = .rootNotGroup ∧ c.fact.isSome = true ∧ c.isGroup = false) ∨
      ((c.fact.isSome = true → c.isGroup = true) ∧ c.ListedAt (path ++ ".conditions") x) := by
  cases h with
  | own violates => exact absurd hx (Under.not_field (by decide))
  | root present' fact group =>
    cases present.symm.trans present'
    exact .inl ⟨rfl, fact, group⟩
  | condition present' root inner =>
    cases present.symm.trans present'
    exact .inr ⟨root, inner⟩
  | action action_eq violates =>
    exact absurd (hx.field_prefix (Under.element ..)) (by decide)

theorem exposed_of_listed (h : ∀ x, r.WrongAt path x → r.ListedAt path x) : r.Exposed := by
  intro c present
  -- what is wrong with a node is not that it is a root
  have hnodes : ∀ x, c.DefectAt (path ++ ".conditions") x →
      (c.fact.isSome = true → c.isGroup = true) ∧ c.ListedAt (path ++ ".conditions") x := by
    intro x hx
    obtain ⟨hkind, _⟩ | hlisted :=
      (h x (.part (.condition present hx))).of_condition present hx.under
    · obtain ⟨node, _, hviolates⟩ := hx
      rw [hkind] at hviolates
      exact absurd hviolates ConditionDraft.not_violates_rootNotGroup
    · exact hlisted
  refine ⟨(c.listed_iff_exposed _).1 fun x hx => (hnodes x hx).2, fun leaf group => ?_⟩
  obtain ⟨_, fact, _⟩ | ⟨_, _, _, hviolates⟩ :=
    (h _ (.root present leaf group)).of_condition present (Under.refl _)
  · refine Classical.byContradiction fun hwrong => ?_
    obtain ⟨x, hx⟩ := ConditionDraft.exists_defectAt hwrong (path ++ ".conditions")
    rw [(hnodes x hx).1 fact] at group
    cases group
  · exact absurd hviolates ConditionDraft.not_violates_rootNotGroup

theorem Exposed.listedAt (h : r.Exposed) (hx : r.WrongAt path x) : r.ListedAt path x := by
  cases hx with
  | part defect =>
    cases defect with
    | own violates => exact .own violates
    | root present fact group => exact .root present fact group
    | @condition c _ present inner =>
      obtain ⟨hexposed, hroot⟩ := h c present
      refine .condition present (fun fact => ?_) ((c.listed_iff_exposed _).2 hexposed x inner)
      have leaf : c.isLeaf = true := by simp [ConditionDraft.isLeaf, fact]
      cases group : c.isGroup with
      | true => rfl
      | false => exact absurd inner (hroot leaf group).not_defectAt
    | action action_eq violates => exact .action action_eq violates
  | @root c present leaf group =>
    have hwell := (h c present).2 leaf group
    refine .root present ?_ group
    cases hwell with
    | leaf => rfl
    | group => cases leaf

end RuleDraft

namespace RulesetDraft

def Wrong (d : RulesetDraft) (x : Defect) : Prop :=
  ∃ (i : Nat) (r : RuleDraft), d.rules[i]? = some r ∧ r.WrongAt (elementPath "rules" i) x

theorem listed_iff_exposed (d : RulesetDraft) :
    (∀ x, d.Wrong x → x ∈ Checked.defects d.check) ↔ ∀ r ∈ d.rules, r.Exposed := by
  simp only [mem_defects_check]
  constructor
  · intro h r hr
    obtain ⟨i, hi⟩ := List.mem_iff_getElem?.1 hr
    have hlisted : ∀ x, r.WrongAt (elementPath "rules" i) x →
        r.ListedAt (elementPath "rules" i) x := by
      intro x hx
      obtain ⟨j, other, hj, hlisted⟩ := h x ⟨i, r, hi, hx⟩
      obtain rfl := hlisted.defectAt.under.element_inj hx.under
      cases hi.symm.trans hj
      exact hlisted
    exact RuleDraft.exposed_of_listed hlisted
  · rintro h x ⟨i, r, hi, hx⟩
    exact ⟨i, r, hi, (h r (List.mem_of_getElem? hi)).listedAt hx⟩

end RulesetDraft

/-! Checks at other paths -/

/-- The same defect, of something that is itself part of what is at the path. -/
def Defect.behind (path : String) (x : Defect) : Defect := ⟨x.kind, path ++ x.path⟩

namespace Checked

variable {α β : Type} {path rest : String}

def behind (path : String) : Checked α → Checked α
  | .ok a => .ok a
  | .error xs => .error (xs.map (Defect.behind path))

theorem defects_behind (c : Checked α) :
    (c.behind path).defects = c.defects.map (Defect.behind path) := by
  cases c <;> rfl

theorem fail_append (kind : DefectKind) :
    (fail (path ++ rest) kind : Checked α) = (fail rest kind).behind path := rfl

theorem map_behind (f : α → β) (c : Checked α) :
    (c.behind path).map f = behind path (c.map f) := by
  cases c <;> rfl

theorem both_behind (c : Checked α) (c' : Checked β) :
    (c.behind path).both (c'.behind path) = (c.both c').behind path := by
  cases c with
  | ok a => cases c' <;> rfl
  | error xs =>
    cases c' with
    | ok b => rfl
    | error ys => simp [both, behind]

theorem sequence_behind (cs : List (Checked α)) :
    sequence (cs.map (behind path)) = (sequence cs).behind path := by
  induction cs with
  | nil => rfl
  | cons c cs ih => rw [List.map_cons, sequence, sequence, ih, both_behind, map_behind]

theorem required_append (field : String) (value : Option α) :
    required (path ++ rest) field value = (required rest field value).behind path := by
  cases value <;> rfl

theorem requiredText_append (field : String) (value : Option String) :
    requiredText (path ++ rest) field value = (requiredText rest field value).behind path := by
  cases value with
  | none => rfl
  | some s =>
    unfold requiredText
    dsimp only
    split <;> rfl

end Checked

theorem elementPath_append (path rest : String) (i : Nat) :
    elementPath (path ++ rest) i = path ++ elementPath rest i := by
  rw [elementPath_eq, elementPath_eq, String.append_assoc]

theorem Checked.sequence_elements {α β : Type} (path rest : String) (f : α → String → Checked β)
    {l : List α} (h : ∀ a ∈ l, ∀ rest, f a (path ++ rest) = (f a rest).behind path) :
    Checked.sequence (l.zipIdx.map fun (a, i) => f a (elementPath (path ++ rest) i)) =
      (Checked.sequence (l.zipIdx.map fun (a, i) => f a (elementPath rest i))).behind path := by
  rw [← sequence_behind, List.map_map]
  refine congrArg _ (List.map_congr_left fun (a, i) hmem => ?_)
  have ha : a ∈ l := List.mem_of_getElem? (List.mem_zipIdx_iff_getElem?.1 hmem)
  exact (congrArg (f a) (elementPath_append path rest i)).trans (h a ha _)

namespace ConditionDraft

open Checked

variable {path rest : String}

theorem checkLeaf_append (c : ConditionDraft) :
    c.checkLeaf (path ++ rest) = (c.checkLeaf rest).behind path := by
  unfold checkLeaf
  dsimp only
  rw [requiredText_append, requiredText_append, required_append, both_behind, both_behind,
    map_behind]

theorem checkGroup_append (children : Checked (List Condition × List Condition)) :
    checkGroup (path ++ rest) (children.behind path) = (checkGroup rest children).behind path := by
  cases children with
  | error xs => rfl
  | ok lists =>
    obtain ⟨as, bs⟩ := lists
    cases as <;> cases bs <;> rfl

theorem checkChildren?_append {cs : Option (List ConditionDraft)}
    (h : ∀ c ∈ cs.getD [], ∀ rest, c.check (path ++ rest) = (c.check rest).behind path) :
    checkChildren? (path ++ rest) cs = (checkChildren? rest cs).behind path := by
  rw [checkChildren?_eq, checkChildren?_eq]
  exact sequence_elements path rest (fun c path => check path c) h

theorem check_append (c : ConditionDraft) (path rest : String) :
    c.check (path ++ rest) = (c.check rest).behind path := by
  induction c using induction generalizing rest with
  | step c hall hany =>
    rw [check_eq, check_eq, String.append_assoc, String.append_assoc,
      checkChildren?_append hall, checkChildren?_append hany, both_behind, checkGroup_append,
      checkLeaf_append, fail_append, fail_append]
    split
    · rfl
    split
    · rfl
    split <;> rfl

end ConditionDraft

namespace RuleDraft

open Checked

variable {path rest : String}

theorem checkPriority_append (priority : Option Int) :
    checkPriority (path ++ rest) priority = (checkPriority rest priority).behind path := by
  unfold checkPriority
  dsimp only
  split
  · rfl
  split <;> rfl

theorem checkConditions_append (conditions : Option ConditionDraft) :
    checkConditions (path ++ rest) conditions =
      (checkConditions rest conditions).behind path := by
  cases conditions with
  | none => rfl
  | some c =>
    unfold checkConditions
    dsimp only
    rw [String.append_assoc, c.check_append, fail_append]
    split <;> rfl

theorem checkAction_append (a : ActionDraft) :
    checkAction (path ++ rest) a = (checkAction rest a).behind path := by
  unfold checkAction
  dsimp only
  rw [requiredText_append, required_append, required_append, both_behind, both_behind, map_behind]

theorem check_append (r : RuleDraft) (path rest : String) :
    r.check (path ++ rest) = (r.check rest).behind path := by
  have hactions := sequence_elements path (rest ++ ".actions") (fun a path => checkAction path a)
    fun a (_ : a ∈ r.actions) rest => checkAction_append a
  unfold check
  dsimp only
  rw [requiredText_append, checkPriority_append, checkConditions_append, String.append_assoc,
    hactions, both_behind, both_behind, both_behind, map_behind]

end RuleDraft

def Defect.inRule (i : Nat) (x : Defect) : Defect :=
  let rest := x.path.toList.drop (elementPath "rules" 0).length
  ⟨x.kind, elementPath "rules" i ++ String.ofList rest⟩

theorem Defect.inRule_behind (i : Nat) (x : Defect) :
    (x.behind (elementPath "rules" 0)).inRule i = x.behind (elementPath "rules" i) := by
  unfold inRule behind
  dsimp only
  rw [String.toList_append, ← String.length_toList, List.drop_left, String.ofList_toList]

namespace RulesetDraft

theorem defects_alone (r : RuleDraft) : Checked.defects (RulesetDraft.mk [r]).check =
    (r.check "").defects.map (Defect.behind (elementPath "rules" 0)) := by
  have hrule := r.check_append (elementPath "rules" 0) ""
  rw [String.append_empty] at hrule
  change (Checked.sequence [r.check (elementPath "rules" 0)]).defects = _
  rw [Checked.defects_sequence, List.flatMap_singleton, hrule, Checked.defects_behind]

theorem defects_check (d : RulesetDraft) : Checked.defects d.check =
    d.rules.zipIdx.flatMap fun (r, i) =>
      (Checked.defects (RulesetDraft.mk [r]).check).map (Defect.inRule i) := by
  rw [check, Checked.defects_sequence, List.flatMap_map]
  refine congrArg (List.flatMap · d.rules.zipIdx) (funext fun (r, i) => ?_)
  have hrule := r.check_append (elementPath "rules" i) ""
  rw [String.append_empty] at hrule
  dsimp only
  rw [hrule, Checked.defects_behind, defects_alone, List.map_map]
  exact List.map_congr_left fun x _ => (x.inRule_behind i).symm

/-- A check lists everything that is wrong with the parts of a draft exactly if nothing wrong is
hidden below a node with a field of a leaf or in a leaf that stands for a root. The list is that of
its rules in their order, each checked alone, with the indices of the rules in the paths. -/
theorem check_complete (d : RulesetDraft) :
    ((∀ x, d.Wrong x → x ∈ Checked.defects d.check) ↔ ∀ r ∈ d.rules, r.Exposed) ∧
    Checked.defects d.check = (d.rules.zipIdx.flatMap fun (r, i) =>
      (Checked.defects (RulesetDraft.mk [r]).check).map (Defect.inRule i)) ∧
    ∀ (r : RuleDraft) (i : Nat), ∀ x ∈ Checked.defects (RulesetDraft.mk [r]).check,
      ∃ rest, x.path = elementPath "rules" 0 ++ rest ∧
        x.inRule i = ⟨x.kind, elementPath "rules" i ++ rest⟩ := by
  refine ⟨d.listed_iff_exposed, d.defects_check, fun r i x hx => ?_⟩
  rw [defects_alone] at hx
  obtain ⟨y, _, rfl⟩ := List.mem_map.1 hx
  exact ⟨y.path, rfl, y.inRule_behind i⟩

def emptyFact : RulesetDraft :=
  ⟨[{ name := some "r"
      conditions := some { all := some [
        { fact := some "", operator := some "GT", value := some (.int 1) }] } }]⟩

theorem check_complete_emptyFact :
    emptyFact.Wrong ⟨.emptyField "fact", "rules[0].conditions.all[0]"⟩ ∧
    ⟨.emptyField "fact", "rules[0].conditions.all[0]"⟩ ∈ Checked.defects emptyFact.check := by
  have hwrong : emptyFact.Wrong ⟨.emptyField "fact", "rules[0].conditions.all[0]"⟩ :=
    ⟨0, _, rfl, .part (.condition rfl
      ⟨_, .all (i := 0) rfl (.root _ _), .fact rfl rfl (.empty rfl)⟩)⟩
  have hexposed : ∀ r ∈ emptyFact.rules, r.Exposed := by
    refine List.forall_mem_singleton.2 fun c present => ?_
    cases present
    refine ⟨fun node hpart leaf child hchild => ?_, nofun⟩
    cases hpart with
    | root => cases leaf
    | inside child_mem inner =>
      cases List.mem_singleton.1 child_mem
      cases inner with
      | root => cases hchild
      | inside other_mem => cases other_mem
  exact ⟨hwrong, emptyFact.check_complete.1.2 hexposed _ hwrong⟩

def mixedRoot : RulesetDraft :=
  ⟨[{ name := some "r"
      conditions := some
        { fact := some "a"
          all := some [{ fact := some "", operator := some "GT", value := some (.int 1) }] } }]⟩

/-- The empty fact is wrong, and the checker does not list it. -/
theorem check_mixedRoot :
    mixedRoot.Wrong ⟨.emptyField "fact", "rules[0].conditions.all[0]"⟩ ∧
    ⟨.emptyField "fact", "rules[0].conditions.all[0]"⟩ ∉ Checked.defects mixedRoot.check := by
  refine ⟨⟨0, _, rfl, .part (.condition rfl ⟨_, .all (i := 0) rfl (.root _ _), ?_⟩)⟩, ?_⟩
  · exact .fact rfl rfl (.empty rfl)
  · have hlist : Checked.defects mixedRoot.check = [⟨.mixedCondition, "rules[0].conditions"⟩] := rfl
    rw [hlist]
    decide

end RulesetDraft

end RuleMachine
